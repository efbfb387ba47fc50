import DocQuery.Proofs.OutputFields

namespace DocQuery.Proofs

open Sql

/-- The rows that an aggregate counts. -/
def counted? : Aggregate → Option (Entries → Bool)
  | .countAll => some fun _ => true
  | .call .count c => some fun d => (Entries.field d c).kind != .null
  | _ => none

/-- A statement that selects only aggregates, over those rows of one table of which comparisons of
columns with literals are true. -/
structure Summarises (t : String) (q : Query) : Prop where
  source : q.source = .table t
  listed : q.items ≠ .all
  items : ∀ x ∈ selectedItems q.items, ∃ a, x = .aggregate a
  groupBy : q.groupBy = []
  orderBy : q.orderBy = []
  limit : q.limit? = none
  condition : ∀ c, q.condition? = some c → ∀ d ∈ comparisons c, ∃ r, comparedColumn? d = some r

theorem Summarises.groups {t : String} {q : Query} (h : Summarises t q) : groupsRows q = true := by
  have hlisted := h.listed
  have hitems := h.items
  cases hi : q.items with
  | all => exact absurd hi hlisted
  | items x xs =>
    rw [hi] at hitems
    obtain ⟨a, rfl⟩ := hitems x List.mem_cons_self
    have ha : a ∈ selectedAggregates (selectedItems q.items) := by
      rw [hi]
      exact mem_selected_aggregates.mpr List.mem_cons_self
    simp [groupsRows, List.ne_nil_of_mem ha]

/-- Filters give equal counts just if no counted member passes only one of them. -/
theorem count_filtered_iff {α : Type} {f g p : α → Bool} (hle : ∀ x, f x = true → g x = true)
    (xs : List α) : (xs.filter g).countP p = (xs.filter f).countP p ↔
      ∀ x ∈ xs, g x = true → p x = true → f x = true := by
  rw [List.countP_filter, List.countP_filter, eq_comm, count_eq_iff]
  · simp only [Bool.and_eq_true]
    exact forall₂_congr fun x _ =>
      ⟨fun h hg hp => (h ⟨hp, hg⟩).2, fun h hpg => ⟨hpg.1, h hpg.2 hpg.1⟩⟩
  · intro x hx
    rw [Bool.and_eq_true] at hx ⊢
    exact ⟨hx.1, hle x hx.2⟩

/-- Where all are alike, there is one class. -/
theorem classes_alike {α : Type} (x : α) (xs : List α) :
    classes (fun _ _ => true) (x :: xs) = [⟨x, xs⟩] := by
  suffices h : ∀ ys, xs.foldl (fun gs y => place (fun _ _ => true) y gs) [⟨x, ys⟩] =
      [⟨x, ys ++ xs⟩] from h []
  induction xs with
  | nil => simp
  | cons y xs ih =>
    intro ys
    have hplace : place (fun _ _ => true) y [⟨x, ys⟩] = [⟨x, ys ++ [y]⟩] := rfl
    rw [List.foldl_cons, hplace, ih, List.append_assoc, List.singleton_append]

theorem arrange_alike (e : Engine) (rows : List Entries) :
    e.arrange (classes (fun _ _ => true) rows) = classes (fun _ _ => true) rows := by
  have hperm := e.arranged (classes (fun _ _ => true) rows)
  cases rows with
  | nil => exact hperm.eq_nil
  | cons d rows =>
    rw [classes_alike] at hperm ⊢
    exact List.perm_singleton.mp hperm

theorem counted_value (e : Engine) (rows : List Entries) {a : Aggregate} {p : Entries → Bool}
    (h : counted? a = some p) : e.aggregateOf rows a = .int (rows.countP p) := by
  cases a with
  | countAll =>
    cases h
    simp [Engine.aggregateOf]
  | call f c =>
    cases f with
    | count =>
      cases h
      rfl
    | _ => cases h

/-- The stages of a statement over all rows give one document of the rows that pass, if there are
any. -/
theorem run_summary (e : Engine) (collections : String → List Entries) {q : Query} {t : String}
    {s? : Option Selector} (hnamed : Named q) (hq : Summarises t q)
    (hs : ClauseSelector (some (.text t)) q.condition? s?) {docs : List Entries}
    (hplain : ∀ d ∈ docs, ∀ name, Atom (Entries.field d name))
    (hused : ∀ d ∈ docs, HoldsColumns (usedColumns q) d) :
    e.run collections (groupStages q (s?.map Selector.toValue) none) docs =
      some ((classes (fun _ _ => true) (docs.filter (rowPasses t q))).map fun g =>
        project (outputEntries q.groupBy (selectedItems q.items)) (e.groupDocument q g)) := by
  have hfilter := run_where e collections hnamed hq.condition hs hplain
  have hgroup := run_group hnamed e collections
    (fun d hd => hused d (List.mem_of_mem_filter hd) : ∀ d ∈ docs.filter (rowPasses t q),
      HoldsColumns (usedColumns q) d)
  have hclosing : closingStages q =
      [Command.projectStage (outputEntries q.groupBy (selectedItems q.items))] := by
    simp [closingStages, orderStages, limitStages, hq.orderBy, hq.limit]
  have halike : (fun a b : Entries => q.groupBy.all fun c =>
      equals (Entries.field a c) (Entries.field b c)) = fun _ _ => true := by
    rw [hq.groupBy]
    rfl
  rw [Engine.groupsOf, halike, arrange_alike] at hgroup
  have hproject : ∀ docs, e.run collections
      [Command.projectStage (outputEntries q.groupBy (selectedItems q.items))] docs =
        some (docs.map (project (outputEntries q.groupBy (selectedItems q.items)))) :=
    fun docs => run_single e collections _ docs
  have hnone : ∀ docs, e.run collections ((none : Option Value).map Command.matchStage).toList
      docs = some docs := fun _ => rfl
  simp only [groupStages, hclosing, run_append, hfilter, hgroup, hnone, hproject, Option.bind_some,
    List.map_map]
  rfl

/-- A document of the rows that pass has the numbers of those that match just if no others are
counted. -/
theorem summary_counts (e : Engine) {q : Query} {t : String} {rows others : List Entries}
    {d : Entries} (hnamed : Named q) (hpassed : rows.filter (rowPasses t q) = d :: others)
    {a : Aggregate} (ha : a ∈ selectedAggregates (selectedItems q.items)) {p : Entries → Bool}
    (hp : counted? a = some p) :
    Entries.get? (project (outputEntries q.groupBy (selectedItems q.items))
        (e.groupDocument q ⟨d, others⟩)) (.text a.alias) =
        some (.int ((rows.filter (rowMatches t q)).countP p)) ↔
      ∀ d ∈ rows, rowPasses t q d = true → p d = true → rowMatches t q d = true := by
  have hmembers : (⟨d, others⟩ : Class Entries).members = rows.filter (rowPasses t q) := hpassed.symm
  rw [project_aggregate hnamed e _ ha, hmembers, counted_value e _ hp,
    ← count_filtered_iff (fun d => matches_passes)]
  constructor
  · intro h
    exact Int.ofNat.inj (Value.int.inj (Option.some.inj h))
  · intro h
    rw [h]

/-- The pipeline of a statement over all rows returns one document, with the numbers of the rows of
which its condition is true, just if a row passes and all counted rows that pass match. -/
theorem summary_row_exact {schema : Value} {sql t : String} {line : Nat} {q : Query}
    (hparse : Sql.parse sql line = .ok q) (haccepted : Accepted schema q)
    (hq : Summarises t q) :
    ∃ command stages, Pipeline.command schema sql line = .ok command ∧
      command.entry "collection" = .ok (.text t) ∧
      command.entry "pipeline" = .ok (.list stages) ∧
      ∀ (e : Engine) (collections : String → List Entries),
        (∀ d ∈ collections t, RowOf schema t d) →
        ∃ out, e.run collections stages (collections t) = some out ∧
          ((∃ d, out = [d] ∧ ∀ a ∈ selectedAggregates (selectedItems q.items), ∀ p,
              counted? a = some p → Entries.get? d (.text a.alias) =
                some (.int (((collections t).filter (rowMatches t q)).countP p))) ↔
            (∃ d ∈ collections t, rowPasses t q d = true) ∧
              ∀ a ∈ selectedAggregates (selectedItems q.items), ∀ p, counted? a = some p →
                ∀ d ∈ collections t, rowPasses t q d = true → p d = true →
                  rowMatches t q d = true) := by
  have hnamed := parse_named hparse
  have hhaving : q.having? = none :=
    Option.eq_none_iff_forall_ne_some.mpr fun c hc => having_grouped haccepted c hc hq.groupBy
  have hgroups := hq.groups
  obtain ⟨s?, hs⟩ := clause_selector (some (.text t)) hnamed.condition
    (fun c hc => compared_literal (hq.condition c hc))
  obtain ⟨string, htranslate⟩ := group_pipeline hq.source hgroups hs.filter
    (hhaving ▸ .none : ClauseFilter (some (.text t)) q.having? none) (literal_filter_succeeds s?)
    (by simp)
  refine ⟨_, _, command_accepted hparse haccepted htranslate, rfl, rfl, ?_⟩
  intro e collections hrows
  refine ⟨_, run_summary e collections hnamed hq hs (fun d hd => (hrows d hd).plain)
    (fun d hd => row_holds_used hnamed haccepted hq.source (hrows d hd)), ?_⟩
  cases hpassed : (collections t).filter (rowPasses t q) with
  | nil =>
    -- No row makes no group.
    have hnone := List.filter_eq_nil_iff.mp hpassed
    constructor
    · rintro ⟨d, hd, -⟩
      cases hd
    · rintro ⟨⟨d, hd, hpass⟩, -⟩
      exact absurd hpass (hnone d hd)
  | cons d others =>
    have hmem : d ∈ (collections t).filter (rowPasses t q) := hpassed ▸ List.mem_cons_self
    obtain ⟨hd, hpass⟩ := List.mem_filter.mp hmem
    rw [classes_alike]
    constructor
    · rintro ⟨out, hout, hcounts⟩
      cases hout
      exact ⟨⟨d, hd, hpass⟩, fun a ha p hp =>
        (summary_counts e hnamed hpassed ha hp).mp (hcounts a ha p hp)⟩
    · rintro ⟨-, hcounts⟩
      exact ⟨_, rfl, fun a ha p hp =>
        (summary_counts e hnamed hpassed ha hp).mpr (hcounts a ha p hp)⟩

/-- How many users over twenty-five there are, and how many of them have a city. -/
def adultCounts : Query :=
  ⟨.items (.aggregate .countAll) [.aggregate (.call .count "city")], .table "users",
    some (.compare ⟨none, "age"⟩ .gt (.literal (.number 25))), [], none, [], none⟩

def adultCountsText : String := "SELECT COUNT(*), COUNT(city) FROM users WHERE age > 25;"

theorem adult_counts_summarise : Summarises "users" adultCounts where
  source := rfl
  listed := by simp [adultCounts]
  items := by simp [adultCounts, selectedItems]
  groupBy := rfl
  orderBy := rfl
  limit := rfl
  condition c hc d hd := by
    cases hc
    obtain rfl := List.mem_singleton.mp hd
    exact ⟨_, rfl⟩

/-- Users of whom only one has a city. -/
def visitors : List Entries :=
  [[(.text "age", .int 20), (.text "city", .null)], citizen 30 "Oslo",
    [(.text "age", .int 40), (.text "city", .null)]]

theorem visitor_rows : ∀ d ∈ visitors, RowOf citizensSchema "users" d := by
  have hnone : ∀ age : Int, RowOf citizensSchema "users"
      [(.text "age", .int age), (.text "city", .null)] :=
    fun age => two_column_row rfl .int .null (.inr rfl) (.inl rfl)
  simp only [visitors, List.forall_mem_cons]
  exact ⟨hnone 20, citizen_row 30 "Oslo", hnone 40, by simp⟩

theorem summary_row_adults : ∃ command stages d,
    Pipeline.command citizensSchema adultCountsText 1 = .ok command ∧
      command.entry "pipeline" = .ok (.list stages) ∧
      plainEngine.run (fun _ => visitors) stages visitors = some [d] ∧
      Entries.get? d (.text "count") = some (.int 2) ∧
      Entries.get? d (.text "count_city") = some (.int 1) := by
  have hparse : Sql.parse adultCountsText 1 = .ok adultCounts := parse_spelled ⟨rfl, rfl⟩ rfl
  have haccepted : Accepted citizensSchema adultCounts := by rfl
  obtain ⟨command, stages, hcommand, -, hstages, hall⟩ :=
    summary_row_exact hparse haccepted adult_counts_summarise
  obtain ⟨out, hrun, hout⟩ := hall plainEngine (fun _ => visitors) visitor_rows
  -- No column is compared for difference, so what passes matches.
  have hsame : ∀ d, rowPasses "users" adultCounts d = rowMatches "users" adultCounts d :=
    fun d => Bool.or_false _
  obtain ⟨d, rfl, hcounts⟩ := hout.mpr ⟨⟨citizen 30 "Oslo", by simp [visitors], by rfl⟩,
    fun a _ p _ d _ hpass _ => hsame d ▸ hpass⟩
  have hall := hcounts .countAll (by simp [adultCounts, selectedItems, selectedAggregates]) _ rfl
  have hcity := hcounts (.call .count "city")
    (by simp [adultCounts, selectedItems, selectedAggregates]) _ rfl
  have halias : (Aggregate.call .count "city").alias = "count_city" := by decide +kernel
  rw [halias] at hcity
  exact ⟨command, stages, d, hcommand, hstages, hrun, hall, hcity⟩

/-- How many users there are. -/
def userCount : Query :=
  ⟨.items (.aggregate .countAll) [], .table "users", none, [], none, [], none⟩

def userCountText : String := "SELECT COUNT(*) FROM users;"

theorem user_count_summarises : Summarises "users" userCount where
  source := rfl
  listed := by simp [userCount]
  items := by simp [userCount, selectedItems]
  groupBy := rfl
  orderBy := rfl
  limit := rfl
  condition c hc := by cases hc

/-- There is no document where no users are counted. -/
theorem no_users_uncounted : Sql.parse userCountText 1 = .ok userCount ∧
    Accepted citizensSchema userCount ∧ Summarises "users" userCount ∧
      ∃ command stages, Pipeline.command citizensSchema userCountText 1 = .ok command ∧
        command.entry "pipeline" = .ok (.list stages) ∧
        plainEngine.run (fun _ => []) stages [] = some [] := by
  have hparse : Sql.parse userCountText 1 = .ok userCount := parse_spelled ⟨rfl, rfl⟩ rfl
  have haccepted : Accepted citizensSchema userCount := by rfl
  obtain ⟨s?, hs⟩ := clause_selector (some (.text "users")) (parse_named hparse).condition
    (fun c hc => by cases hc)
  obtain ⟨string, htranslate⟩ := group_pipeline rfl rfl hs.filter .none (literal_filter_succeeds s?)
    (by simp)
  exact ⟨hparse, haccepted, user_count_summarises, _, _,
    command_accepted hparse haccepted htranslate, rfl,
    run_summary plainEngine _ (parse_named hparse) user_count_summarises hs (by simp) (by simp)⟩

end DocQuery.Proofs
