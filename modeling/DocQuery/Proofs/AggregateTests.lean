import DocQuery.Proofs.Clauses
import DocQuery.Proofs.WrittenOrder

namespace DocQuery.Proofs

open Sql
open Value (doc)

/-- The aggregates that a condition tests, without those of its subqueries. -/
def conditionAggregates : Condition → List Aggregate
  | .connect l _ r => conditionAggregates l ++ conditionAggregates r
  | .aggregate a _ _ => [a]
  | _ => []

def operandColumns : Operand → List ColumnRef
  | .column c => [c]
  | .literal _ => []

/-- The plain columns that a condition tests. -/
def conditionColumns : Condition → List ColumnRef
  | .connect l _ r => conditionColumns l ++ conditionColumns r
  | .compare c _ x => c :: operandColumns x
  | .aggregate .. => []
  | .between c _ _ => [⟨none, c⟩]
  | .inList c _ _ => [c]
  | .inQuery c _ => [c]

def clauseAggregates (c? : Option Condition) : List Aggregate := c?.elim [] conditionAggregates

def clauseColumns (c? : Option Condition) : List ColumnRef := c?.elim [] conditionColumns

mutual
def conditionStatements : Condition → List (Statement Condition)
  | .connect l _ r => conditionStatements l ++ conditionStatements r
  | .inQuery _ q => statementsOf q
  | _ => []

def clauseStatements : Option Condition → List (Statement Condition)
  | none => []
  | some c => conditionStatements c

def joinStatements : Source Condition → List (Statement Condition)
  | .join _ _ on => conditionStatements on
  | _ => []

/-- A statement and the subqueries in it. -/
def statementsOf : Statement Condition → List (Statement Condition)
  | ⟨items, source, condition?, groupBy, having?, orderBy, limit?⟩ =>
    ⟨items, source, condition?, groupBy, having?, orderBy, limit?⟩ ::
      (joinStatements source ++ clauseStatements condition? ++ clauseStatements having?)
end

/-- The stages of a command. One that finds documents has none. -/
def stagesOf (command : Value) : List Value :=
  match command.entry "pipeline" with
  | .ok (.list stages) => stages
  | _ => []

/-- A stage groups documents, and accumulates an aggregate under its alias. -/
def Accumulates (stage : Value) (a : Aggregate) : Prop :=
  ∃ es, stage = doc [("$group", .dict es)] ∧
    Entries.get? es (.text a.alias) = some (accumulated a)

/-- A stage filters by a field. -/
def FiltersBy (stage : Value) (field : String) : Prop :=
  ∃ f, filterIn? stage = some f ∧ field ∈ testedFields f

/-- A stage sorts by a field. -/
def SortsBy (stage : Value) (field : String) : Prop :=
  ∃ es, stage = doc [("$sort", .dict es)] ∧ Entries.has es (.text field) = true

/-- The alias of an aggregate is used by a stage, and by none before the aggregate is
accumulated. -/
def ComputedFor (uses : Value → String → Prop) (stages : List Value) (a : Aggregate) : Prop :=
  (∃ s ∈ stages, uses s a.alias) ∧
    ∀ before s after, stages = before ++ s :: after → uses s a.alias → ∃ g ∈ before, Accumulates g a

/-- A stage groups the documents of a table, and holds a column of it in a field of the groups. -/
def HoldsIn (table : String) (stage : Value) (c : ColumnRef) (field : String) : Prop :=
  (c.table? = none ∨ c.table? = some table) ∧ ∃ es, stage = doc [("$group", .dict es)] ∧
    ((Entries.get? es (.text "_id") = some (.text ("$" ++ c.name)) ∧ field = "_id") ∨
      ∃ keys, Entries.get? es (.text "_id") = some (.dict keys) ∧
        Entries.get? keys (.text c.name) = some (.text ("$" ++ c.name)) ∧ field = "_id." ++ c.name)

/-- A stage filters by the field of a column, and this is where the groups before it hold it. -/
def AddressedIn (s : Source Condition) (stages : List Value) (c : ColumnRef) : Prop :=
  ∃ before stage after, stages = before ++ stage :: after ∧
    FiltersBy stage (columnField (some (sourceTable s)) c) ∧
    ∃ g ∈ before, HoldsIn (baseName s) g c (columnField (some (sourceTable s)) c)

/-- The command of a statement computes the aggregates that it and its subqueries test or are
ordered by before they are used, and tests the columns of groups where these hold them. -/
structure ComputesFirst (q : Query) (ordered : List Aggregate) (command : Value) : Prop where
  tested : ∀ s ∈ statementsOf q, ∀ a ∈ clauseAggregates s.condition? ++ clauseAggregates s.having?,
    ComputedFor FiltersBy (stagesOf command) a
  ordered : ∀ a ∈ ordered, ComputedFor SortsBy (stagesOf command) a
  columns : ∀ s ∈ statementsOf q, ∀ c ∈ clauseColumns s.having?,
    AddressedIn s.source (stagesOf command) c

theorem mem_statements (q : Query) : q ∈ statementsOf q := by
  cases q
  rw [statementsOf]
  exact List.mem_cons_self

theorem condition_alone {c : Condition} (h : asksQuery c = false) : conditionStatements c = [] := by
  match c with
  | .connect l _ r =>
    obtain ⟨hl, hr⟩ : asksQuery l = false ∧ asksQuery r = false := by simpa [asksQuery] using h
    rw [conditionStatements, condition_alone hl, condition_alone hr, List.append_nil]
  | .inQuery .. => simp [asksQuery] at h
  | .compare .. => simp [conditionStatements]
  | .aggregate .. => simp [conditionStatements]
  | .between .. => simp [conditionStatements]
  | .inList .. => simp [conditionStatements]

theorem clause_alone {c? : Option Condition} (h : c?.any asksQuery = false) :
    clauseStatements c? = [] := by
  cases c? with
  | none => rw [clauseStatements]
  | some c =>
    rw [clauseStatements]
    exact condition_alone h

/-- A statement on one table with no test of membership in a subquery is alone. -/
theorem statement_alone {q : Query} {t : String} (hs : q.source = .table t)
    (hw : q.condition?.any asksQuery = false) (hh : q.having?.any asksQuery = false) :
    statementsOf q = [q] := by
  obtain ⟨items, source, condition?, groupBy, having?, orderBy, limit?⟩ := q
  obtain rfl : source = .table t := hs
  simp [statementsOf, clause_alone hw, clause_alone hh, joinStatements]

/-- There is no filter for a test of membership in a subquery. -/
theorem filter_asks {base? : Option Value} {c : Condition} {f : Value}
    (hf : Command.filter base? c.toValue = .ok f) : asksQuery c = false := by
  match c with
  | .connect l w r =>
    rw [Condition.toValue, Command.filter] at hf
    simp only [bind_ok] at hf
    obtain ⟨_, hl, _, hr, -⟩ := hf
    rw [asksQuery, filter_asks hl, filter_asks hr, Bool.or_false]
  | .inQuery c q =>
    rw [Condition.toValue] at hf
    simp only [Command.filter, field_of_ref, command_lift, ok_bind] at hf
    cases hf
  | .compare .. => rfl
  | .aggregate .. => rfl
  | .between .. => rfl
  | .inList .. => rfl

/-- Every condition tests something. -/
theorem condition_tests (c : Condition) : conditionAggregates c ≠ [] ∨ conditionColumns c ≠ [] := by
  match c with
  | .connect l _ r =>
    rcases condition_tests l with hl | hl
    · exact .inl fun h => hl (List.append_eq_nil_iff.mp h).1
    · exact .inr fun h => hl (List.append_eq_nil_iff.mp h).1
  | .aggregate .. => exact .inl (List.cons_ne_nil _ _)
  | .compare .. => exact .inr (List.cons_ne_nil _ _)
  | .between .. => exact .inr (List.cons_ne_nil _ _)
  | .inList .. => exact .inr (List.cons_ne_nil _ _)
  | .inQuery .. => exact .inr (List.cons_ne_nil _ _)

/-- Without a stage that groups, nothing is computed. -/
theorem ungrouped_computes {q : Query} {ordered : List Aggregate} {command : Value}
    (hgroups : ∀ es, doc [("$group", .dict es)] ∉ stagesOf command) :
    ComputesFirst q ordered command ↔
      (∀ s ∈ statementsOf q, clauseAggregates s.condition? = [] ∧ s.having? = none) ∧
        ordered = [] := by
  have hnot : ∀ uses a, ¬ ComputedFor uses (stagesOf command) a := by
    rintro uses a ⟨⟨s, hs, huse⟩, hall⟩
    obtain ⟨before, after, hsplit⟩ := List.append_of_mem hs
    obtain ⟨g, hg, es, rfl, -⟩ := hall before s after hsplit huse
    exact hgroups es (hsplit ▸ List.mem_append_left _ hg)
  have hcolumn : ∀ source c, ¬ AddressedIn source (stagesOf command) c := by
    rintro source c ⟨before, s, after, hsplit, -, g, hg, -, es, rfl, -⟩
    exact hgroups es (hsplit ▸ List.mem_append_left _ hg)
  constructor
  · intro h
    refine ⟨fun s hs => ?_,
      List.eq_nil_iff_forall_not_mem.mpr fun a ha => hnot _ a (h.ordered a ha)⟩
    have htested := List.eq_nil_iff_forall_not_mem.mpr fun a ha => hnot _ a (h.tested s hs a ha)
    obtain ⟨hcondition, hhaving⟩ := List.append_eq_nil_iff.mp htested
    refine ⟨hcondition, ?_⟩
    cases hc : s.having? with
    | none => rfl
    | some c =>
      rw [hc] at hhaving
      rcases condition_tests c with hne | hne
      · exact absurd hhaving hne
      · obtain ⟨d, hd⟩ := List.exists_mem_of_ne_nil _ hne
        exact absurd (h.columns s hs d (by rw [hc]; exact hd)) (hcolumn _ d)
  · rintro ⟨hnone, rfl⟩
    refine ⟨fun s hs => ?_, by simp, fun s hs => ?_⟩
    · rw [(hnone s hs).1, (hnone s hs).2]
      simp [clauseAggregates]
    · rw [(hnone s hs).2]
      simp [clauseColumns]

/-- Around the one stage that groups. -/
theorem computed_around {uses : Value → String → Prop} {pre post : List Value} {group : Value}
    {a : Aggregate} (hpre : ∀ s ∈ pre, ¬ Accumulates s a) (hpost : ∀ s ∈ post, ¬ Accumulates s a)
    (hgroup : ¬ uses group a.alias) :
    ComputedFor uses (pre ++ group :: post) a ↔
      (∀ s ∈ pre, ¬ uses s a.alias) ∧ Accumulates group a ∧ ∃ s ∈ post, uses s a.alias := by
  constructor
  · rintro ⟨⟨s, hs, huse⟩, hall⟩
    have hbefore : ∀ s ∈ pre, ¬ uses s a.alias := by
      intro s hs huse
      obtain ⟨before, after, rfl⟩ := List.append_of_mem hs
      obtain ⟨g, hg, hacc⟩ := hall before s (after ++ group :: post) (by simp) huse
      exact hpre g (List.mem_append_left _ hg) hacc
    have hafter : s ∈ post := by
      rcases List.mem_append.mp hs with hs | hs
      · exact absurd huse (hbefore s hs)
      · rcases List.mem_cons.mp hs with rfl | hs
        · exact absurd huse hgroup
        · exact hs
    refine ⟨hbefore, ?_, s, hafter, huse⟩
    obtain ⟨before, after, rfl⟩ := List.append_of_mem hafter
    obtain ⟨g, hg, hacc⟩ := hall (pre ++ group :: before) s after (by simp) huse
    rcases List.mem_append.mp hg with hg | hg
    · exact absurd hacc (hpre g hg)
    · rcases List.mem_cons.mp hg with rfl | hg
      · exact hacc
      · exact absurd hacc (hpost g (List.mem_append_left _ hg))
  · rintro ⟨hbefore, hacc, s, hs, huse⟩
    refine ⟨⟨s, List.mem_append_right _ (List.mem_cons_of_mem _ hs), huse⟩, ?_⟩
    intro before s after hsplit huse
    rcases List.append_eq_append_iff.mp hsplit with ⟨mid, rfl, hmid⟩ | ⟨mid, rfl, hmid⟩
    · cases mid with
      | nil =>
        obtain ⟨rfl, -⟩ := List.cons.inj hmid
        exact absurd huse hgroup
      | cons m mid =>
        obtain ⟨rfl, -⟩ := List.cons.inj hmid
        exact ⟨group, List.mem_append_right _ List.mem_cons_self, hacc⟩
    · cases mid with
      | nil =>
        obtain ⟨rfl, -⟩ := List.cons.inj hmid
        exact absurd huse hgroup
      | cons m mid =>
        obtain ⟨rfl, -⟩ := List.cons.inj hmid
        exact absurd huse (hbefore s (List.mem_append_right _ List.mem_cons_self))

theorem term_aggregates_named {c : Condition} (hc : Term c) :
    ∀ a ∈ conditionAggregates c, NamedItem (.aggregate a) := by
  cases hc with
  | aggregate ha => exact List.forall_mem_singleton.mpr ha
  | _ => simp [conditionAggregates]

/-- The aggregates of a condition are named as they were read. -/
theorem aggregates_named {c : Condition} (hc : Comb c) :
    ∀ a ∈ conditionAggregates c, NamedItem (.aggregate a) := by
  induction hc with
  | term ht => exact term_aggregates_named ht
  | connect _ _ hr ih => exact List.forall_mem_append.mpr ⟨ih, term_aggregates_named hr⟩

theorem aggregate_tested (base? : Option Value) {c : Condition} {a : Aggregate}
    (h : a ∈ conditionAggregates c) : aggregateName a ∈ testedNames base? c := by
  match c with
  | .connect l _ r =>
    rw [conditionAggregates] at h
    rw [testedNames]
    rcases List.mem_append.mp h with h | h
    · exact List.mem_append_left _ (aggregate_tested base? h)
    · exact List.mem_append_right _ (aggregate_tested base? h)
  | .aggregate b _ _ =>
    simp only [conditionAggregates, List.mem_singleton] at h
    rw [testedNames, h]
    exact List.mem_singleton_self _
  | .compare .. => simp [conditionAggregates] at h
  | .between .. => simp [conditionAggregates] at h
  | .inList .. => simp [conditionAggregates] at h
  | .inQuery .. => simp [conditionAggregates] at h

section

variable {c? : Option Condition} (hc : ∀ c, c? = some c → Comb c) {a : Aggregate}
  (ha : a ∈ clauseAggregates c?)

include hc ha

theorem clause_named : NamedItem (.aggregate a) := by
  cases c? with
  | none => cases ha
  | some c => exact aggregates_named (hc c rfl) a ha

/-- A clause tests the alias of each of its aggregates. -/
theorem clause_tests (base? : Option Value) : a.alias ∈ clauseNames base? c? := by
  rw [alias_name (clause_named hc ha)]
  cases c? with
  | none => cases ha
  | some c => exact aggregate_tested base? ha

end

/-- A comparison with literals or with a column tests the field of its first column. -/
theorem column_tested (base? : Option Value) {c : Condition} (h : asksQuery c = false)
    {d : ColumnRef} (hd : d ∈ conditionColumns c) :
    ∃ e ∈ conditionColumns c, columnField base? e ∈ testedNames base? c := by
  match c with
  | .connect l w r =>
    obtain ⟨hl, hr⟩ : asksQuery l = false ∧ asksQuery r = false := by simpa [asksQuery] using h
    rw [conditionColumns] at hd
    rw [conditionColumns, testedNames]
    rcases List.mem_append.mp hd with hd | hd
    · obtain ⟨e, he, htested⟩ := column_tested base? hl hd
      exact ⟨e, List.mem_append_left _ he, List.mem_append_left _ htested⟩
    · obtain ⟨e, he, htested⟩ := column_tested base? hr hd
      exact ⟨e, List.mem_append_right _ he, List.mem_append_right _ htested⟩
  | .compare c _ _ =>
    rw [conditionColumns, testedNames]
    exact ⟨c, List.mem_cons_self, List.mem_singleton_self _⟩
  | .between c _ _ =>
    rw [conditionColumns, testedNames]
    exact ⟨⟨none, c⟩, List.mem_cons_self, List.mem_singleton_self _⟩
  | .inList c _ _ =>
    rw [conditionColumns, testedNames]
    exact ⟨c, List.mem_cons_self, List.mem_singleton_self _⟩
  | .aggregate .. => simp [conditionColumns] at hd
  | .inQuery .. => simp [asksQuery] at h

theorem filters_by_match (f : Value) (x : String) :
    FiltersBy (Command.matchStage f) x ↔ x ∈ testedFields f := by
  simp [FiltersBy, Command.matchStage, doc, filterIn?]

section

variable {op : String} (body : Value)

theorem not_filters_by (h : op ≠ "$match") (x : String) : ¬ FiltersBy (doc [(op, body)]) x := by
  rintro ⟨f, hf, -⟩
  rw [not_filter body h] at hf
  cases hf

theorem not_sorts_by (h : op ≠ "$sort") (x : String) : ¬ SortsBy (doc [(op, body)]) x := by
  rintro ⟨es, he, -⟩
  cases he
  exact h rfl

theorem not_accumulates (h : op ≠ "$group") (a : Aggregate) :
    ¬ Accumulates (doc [(op, body)]) a := by
  rintro ⟨es, he, -⟩
  cases he
  exact h rfl

end

/-- The stage that groups for a statement. -/
def groupingStage (q : Query) : Value :=
  doc [("$group", .dict (groupEntries q.groupBy (selectedItems q.items)))]

theorem accumulates_selected {q : Query} (hq : Named q) {a : Aggregate}
    (ha : NamedItem (.aggregate a)) :
    Accumulates (groupingStage q) a ↔ a ∈ selectedAggregates (selectedItems q.items) := by
  have hsame : ∀ b ∈ selectedAggregates (selectedItems q.items), aggregateName b = a.alias →
      b = a := by
    intro b hb he
    rw [alias_name ha] at he
    exact aggregate_name_injective (hq.items _ (mem_selected_aggregates.mp hb)) ha he
  constructor
  · rintro ⟨es, hes, hget⟩
    cases hes
    by_contra hnone
    have hother : ∀ f ∈ accumulatedFields (selectedItems q.items), f.1 ≠ a.alias := by
      intro f hf he
      obtain ⟨b, hb, rfl⟩ := List.mem_map.mp hf
      exact hnone (hsame b hb he ▸ hb)
    have hid : a.alias ≠ "_id" := alias_name ha ▸ aggregate_name_not_id a
    rw [groupEntries, get_put_all_other hother] at hget
    simp [Entries.get?, hid.symm] at hget
  · intro hmem
    refine ⟨_, rfl, get_put_all ⟨_, List.mem_map_of_mem hmem, (alias_name ha).symm⟩ ?_⟩
    intro f hf he
    obtain ⟨b, hb, rfl⟩ := List.mem_map.mp hf
    rw [hsame b hb he]

theorem group_key_entry (cs : List String) (items : List SelectItem) :
    Entries.get? (groupEntries cs items) (.text "_id") = some (groupKeyOf cs) := by
  rw [groupEntries, get_put_all_other]
  · rfl
  · intro f hf
    obtain ⟨b, -, rfl⟩ := List.mem_map.mp hf
    exact aggregate_name_not_id b

theorem own_field {t : String} {c : ColumnRef} (h : c.table? = none ∨ c.table? = some t) :
    columnField (some (.text t)) c = c.name := by
  rcases h with h | h
  · simp [columnField, h]
  · simp [columnField, h]

/-- The field of a column is where groups hold it just for the one column `_id`. -/
theorem holds_in_group (q : Query) (t : String) (c : ColumnRef) :
    HoldsIn t (groupingStage q) c (columnField (some (.text t)) c) ↔
      q.groupBy = ["_id"] ∧ c.name = "_id" ∧ (c.table? = none ∨ c.table? = some t) := by
  constructor
  · rintro ⟨hown, es, hes, h⟩
    cases hes
    rw [group_key_entry, own_field hown] at h
    rcases h with ⟨hkey, hname⟩ | ⟨keys, -, -, hname⟩
    · refine ⟨?_, hname, hown⟩
      generalize q.groupBy = cs at hkey
      match cs with
      | [d] =>
        have hpath : "$" ++ d = "$" ++ c.name := Value.text.inj (Option.some.inj hkey)
        obtain rfl : d = c.name := by
          apply String.toList_injective
          simpa using congrArg String.toList hpath
        rw [hname]
    · have hlength := congrArg String.length hname
      simp at hlength
  · rintro ⟨hgroups, hname, hown⟩
    refine ⟨hown, _, rfl, .inl ⟨?_, ?_⟩⟩
    · rw [group_key_entry, hgroups, hname]
      rfl
    · rw [own_field hown, hname]

/-- Groups are sorted by the fields of the order. -/
theorem closing_sorts (q : Query) (x : String) :
    (∃ s ∈ closingStages q, SortsBy s x) ↔ ∃ o ∈ q.orderBy, orderName q.groupBy o.column = x := by
  constructor
  · rintro ⟨s, hs, hsort⟩
    simp only [closingStages, orderStages, limitStages, List.mem_append] at hs
    rcases hs with (hs | hs) | hs
    · split at hs
      · cases hs
      · obtain rfl := List.mem_singleton.mp hs
        obtain ⟨es, he, hhas⟩ := hsort
        cases he
        by_contra hnone
        rw [has_eq_get, orderEntries, get_put_all_other] at hhas
        · cases hhas
        · intro f hf he
          obtain ⟨o, ho, rfl⟩ := List.mem_map.mp hf
          exact hnone ⟨o, ho, he⟩
    · obtain ⟨n, -, rfl⟩ : ∃ n, q.limit? = some n ∧ doc [("$limit", .int n)] = s := by
        simpa using hs
      exact absurd hsort (not_sorts_by _ (by decide) x)
    · obtain rfl := List.mem_singleton.mp hs
      exact absurd hsort (not_sorts_by _ (by decide) x)
  · rintro ⟨o, ho, rfl⟩
    refine ⟨doc [("$sort", .dict (orderEntries q.groupBy q.orderBy))], ?_, _, rfl,
      order_entries_has q.groupBy ho⟩
    simp [closingStages, orderStages, List.ne_nil_of_mem ho]

/-- Groups are sorted by an aggregate under its alias, unless this is the name of a grouping
column. -/
theorem order_name_alias {cs : List String} {a : Aggregate} (ha : NamedItem (.aggregate a))
    {os : List OrderItem} (ho : ∃ o ∈ os, o.column = a.alias) :
    (∃ o ∈ os, orderName cs o.column = a.alias) ↔ a.alias ∉ cs := by
  have hid : a.alias ≠ "_id" := alias_name ha ▸ aggregate_name_not_id a
  have hdot : '.' ∉ a.alias.toList := alias_name ha ▸ aggregate_name_no_dot ha
  constructor
  · rintro ⟨o, -, he⟩ hmem
    unfold orderName at he
    split at he
    · split at he
      · exact hid he.symm
      · exact hdot (by rw [← he]; simp)
    · rename_i hnot
      exact hnot (he ▸ hmem)
  · intro hnot
    obtain ⟨o, ho, he⟩ := ho
    exact ⟨o, ho, by rw [orderName, he, if_neg hnot]⟩

/-- What a statement on groups tests is there: no aggregate before the groups are made; in the tests
of groups selected aggregates, whose aliases are not tested before, and no column but `_id`; and an
order by selected aggregates, whose aliases are not names of grouping columns. -/
structure TestsGroups (q : Query) (ordered : List Aggregate) (t : String) : Prop where
  condition : clauseAggregates q.condition? = []
  having : ∀ a ∈ clauseAggregates q.having?, a ∈ selectedAggregates (selectedItems q.items) ∧
    a.alias ∉ clauseNames (some (.text t)) q.condition?
  columns : ∀ c ∈ clauseColumns q.having?,
    q.groupBy = ["_id"] ∧ c.name = "_id" ∧ (c.table? = none ∨ c.table? = some t)
  ordered : ∀ a ∈ ordered, a ∈ selectedAggregates (selectedItems q.items) ∧ a.alias ∉ q.groupBy

section

variable {q : Query} {t : String} {where? having? : Option Value} {a : Aggregate}

theorem clause_filters {c? : Option Condition} {filter? : Option Value}
    (h : ClauseFilter (some (.text t)) c? filter?) (x : String) :
    (∃ s ∈ (filter?.map Command.matchStage).toList, FiltersBy s x) ↔
      x ∈ clauseNames (some (.text t)) c? := by
  cases h with
  | none => simp [clauseNames]
  | some hf =>
    have htests := filter_tests hf
    simp [clauseNames, filters_by_match, htests]

theorem clause_filter_asks {c? : Option Condition} {filter? : Option Value}
    (h : ClauseFilter (some (.text t)) c? filter?) : c?.any asksQuery = false := by
  cases h with
  | none => rfl
  | some hf => exact filter_asks hf

theorem match_stage_only {filter? : Option Value} {s : Value}
    (hs : s ∈ (filter?.map Command.matchStage).toList) : ∃ f, s = doc [("$match", f)] := by
  obtain ⟨f, -, rfl⟩ : ∃ f, filter? = some f ∧ Command.matchStage f = s := by simpa using hs
  exact ⟨f, rfl⟩

theorem after_group {s : Value}
    (hs : s ∈ (having?.map Command.matchStage).toList ++ closingStages q) :
    ∃ op body, s = doc [(op, body)] ∧ op ≠ "$group" := by
  rcases List.mem_append.mp hs with hs | hs
  · obtain ⟨f, rfl⟩ := match_stage_only hs
    exact ⟨"$match", f, rfl, by decide⟩
  · obtain ⟨op, body, rfl, -, hop⟩ := closing_stage hs
    exact ⟨op, body, rfl, hop⟩

theorem group_stages_around (q : Query) (where? having? : Option Value) :
    groupStages q where? having? = (where?.map Command.matchStage).toList ++
      groupingStage q :: ((having?.map Command.matchStage).toList ++ closingStages q) := by
  simp [groupStages, groupingStage]

/-- A pipeline groups once. -/
theorem group_stage_only {es : Entries}
    (h : doc [("$group", .dict es)] ∈ groupStages q where? having?) :
    es = groupEntries q.groupBy (selectedItems q.items) := by
  rw [group_stages_around] at h
  rcases List.mem_append.mp h with h | h
  · obtain ⟨f, hf⟩ := match_stage_only h
    simp [doc] at hf
  · rcases List.mem_cons.mp h with h | h
    · cases h
      rfl
    · obtain ⟨op, body, he, hop⟩ := after_group h
      cases he
      exact absurd rfl hop

/-- An alias is used after the groups are made. -/
theorem group_computed (hq : Named q) (ha : NamedItem (.aggregate a))
    {uses : Value → String → Prop} (hgroup : ¬ uses (groupingStage q) a.alias) :
    ComputedFor uses (groupStages q where? having?) a ↔
      (∀ s ∈ (where?.map Command.matchStage).toList, ¬ uses s a.alias) ∧
        a ∈ selectedAggregates (selectedItems q.items) ∧
        ∃ s ∈ (having?.map Command.matchStage).toList ++ closingStages q, uses s a.alias := by
  rw [group_stages_around, computed_around ?_ ?_ hgroup, accumulates_selected hq ha]
  · intro s hs
    obtain ⟨f, rfl⟩ := match_stage_only hs
    exact not_accumulates f (by decide) a
  · intro s hs
    obtain ⟨op, body, rfl, hop⟩ := after_group hs
    exact not_accumulates body hop a

/-- An aggregate is computed for filters if it is selected, and tested in groups only. -/
theorem group_filtered (hq : Named q) (hw : ClauseFilter (some (.text t)) q.condition? where?)
    (hh : ClauseFilter (some (.text t)) q.having? having?) (ha : NamedItem (.aggregate a)) :
    ComputedFor FiltersBy (groupStages q where? having?) a ↔
      a.alias ∉ clauseNames (some (.text t)) q.condition? ∧
        a ∈ selectedAggregates (selectedItems q.items) ∧
        a.alias ∈ clauseNames (some (.text t)) q.having? := by
  have hclosing : ¬ ∃ s ∈ closingStages q, FiltersBy s a.alias := by
    rintro ⟨s, hs, hfilter⟩
    obtain ⟨op, body, rfl, hop, -⟩ := closing_stage hs
    exact not_filters_by body hop _ hfilter
  rw [group_computed hq ha (not_filters_by _ (by decide) _), ← clause_filters hw,
    ← clause_filters hh]
  simp only [List.mem_append, or_and_right, exists_or, hclosing, or_false, not_exists, not_and]

/-- An aggregate is computed for the order if it is selected, and no grouping column is named as
it. -/
theorem group_sorted (hq : Named q) (ha : NamedItem (.aggregate a))
    (ho : ∃ o ∈ q.orderBy, o.column = a.alias) :
    ComputedFor SortsBy (groupStages q where? having?) a ↔
      a ∈ selectedAggregates (selectedItems q.items) ∧ a.alias ∉ q.groupBy := by
  have hmatch : ∀ {filter? : Option Value}, ∀ s ∈ (filter?.map Command.matchStage).toList,
      ¬ SortsBy s a.alias := by
    intro filter? s hs
    obtain ⟨f, rfl⟩ := match_stage_only hs
    exact not_sorts_by f (by decide) _
  have hhaving : ¬ ∃ s ∈ (having?.map Command.matchStage).toList, SortsBy s a.alias := by
    rintro ⟨s, hs, hsort⟩
    exact hmatch s hs hsort
  rw [group_computed hq ha (not_sorts_by _ (by decide) _), ← order_name_alias ha ho,
    ← closing_sorts]
  simp only [List.mem_append, or_and_right, exists_or, hhaving, false_or]
  exact and_iff_right hmatch

/-- A column that is tested where groups hold it is `_id`. -/
theorem addressed_column (hs : q.source = .table t) {c : ColumnRef}
    (h : AddressedIn q.source (groupStages q where? having?) c) :
    q.groupBy = ["_id"] ∧ c.name = "_id" ∧ (c.table? = none ∨ c.table? = some t) := by
  obtain ⟨before, s, after, hsplit, -, g, hg, hholds⟩ := h
  have hmem : g ∈ groupStages q where? having? := hsplit ▸ List.mem_append_left _ hg
  obtain rfl : g = groupingStage q := by
    obtain ⟨-, es, rfl, -⟩ := hholds
    rw [group_stage_only hmem, groupingStage]
  rw [hs] at hholds
  exact (holds_in_group q t c).mp hholds

theorem column_addressed (hs : q.source = .table t) {d : Condition} {f : Value} {c : ColumnRef}
    (hf : Command.filter (some (.text t)) d.toValue = .ok f)
    (htested : columnField (some (.text t)) c ∈ testedNames (some (.text t)) d)
    (hc : q.groupBy = ["_id"] ∧ c.name = "_id" ∧ (c.table? = none ∨ c.table? = some t)) :
    AddressedIn q.source (groupStages q where? (some f)) c := by
  refine ⟨(where?.map Command.matchStage).toList ++ [groupingStage q], Command.matchStage f,
    closingStages q, ?_, ?_, groupingStage q, by simp, ?_⟩
  · simp [group_stages_around]
  · rw [filters_by_match, filter_tests hf, hs]
    exact htested
  · rw [hs]
    exact (holds_in_group q t c).mpr hc

/-- The commands that group compute first just what may be tested in groups. -/
theorem group_computes {ordered : List Aggregate} (hq : Named q) (hs : q.source = .table t)
    (halone : statementsOf q = [q])
    (hw : ClauseFilter (some (.text t)) q.condition? where?)
    (hh : ClauseFilter (some (.text t)) q.having? having?)
    (ho : ∀ a ∈ ordered, NamedItem (.aggregate a) ∧ ∃ o ∈ q.orderBy, o.column = a.alias)
    (string : String) (collection : Value) :
    ComputesFirst q ordered (pipelineDocument string collection (groupStages q where? having?)) ↔
      TestsGroups q ordered t := by
  have hstages : stagesOf (pipelineDocument string collection (groupStages q where? having?)) =
      groupStages q where? having? := rfl
  have hself := mem_statements q
  constructor
  · intro h
    refine ⟨?_, ?_, ?_, ?_⟩
    · refine List.eq_nil_iff_forall_not_mem.mpr fun a ha => ?_
      have hcomputed := h.tested q hself a (List.mem_append_left _ ha)
      rw [hstages, group_filtered hq hw hh (clause_named hq.condition ha)] at hcomputed
      exact hcomputed.1 (clause_tests hq.condition ha _)
    · intro a ha
      have hcomputed := h.tested q hself a (List.mem_append_right _ ha)
      rw [hstages, group_filtered hq hw hh (clause_named hq.having ha)] at hcomputed
      exact ⟨hcomputed.2.1, hcomputed.1⟩
    · intro c hc
      exact addressed_column hs (h.columns q hself c hc)
    · intro a ha
      obtain ⟨hname, horder⟩ := ho a ha
      exact (group_sorted hq hname horder).mp (h.ordered a ha)
  · intro h
    refine ⟨?_, ?_, ?_⟩
    · rw [halone]
      refine List.forall_mem_singleton.mpr fun a ha => ?_
      rw [h.condition, List.nil_append] at ha
      obtain ⟨hselected, hnot⟩ := h.having a ha
      exact (group_filtered hq hw hh (clause_named hq.having ha)).mpr
        ⟨hnot, hselected, clause_tests hq.having ha _⟩
    · intro a ha
      obtain ⟨hname, horder⟩ := ho a ha
      exact (group_sorted hq hname horder).mpr (h.ordered a ha)
    · rw [halone]
      refine List.forall_mem_singleton.mpr ?_
      have hcolumns := h.columns
      generalize q.having? = c? at hh hcolumns
      intro c hc
      cases hh with
      | none => cases hc
      | @some _ d hf =>
        obtain ⟨e, he, htested⟩ := column_tested _ (filter_asks hf) hc
        obtain ⟨-, hname, hown⟩ := hcolumns e he
        have hfield := hcolumns c hc
        refine column_addressed hs hf ?_ hfield
        rw [own_field hown, hname] at htested
        rwa [own_field hfield.2.2, hfield.2.1]

end

theorem runs_only_stages {ops : List String} {command : Value} (h : RunsOnly ops command)
    (hops : "$group" ∉ ops) : ∀ es, doc [("$group", .dict es)] ∉ stagesOf command := by
  obtain ⟨string, collection, stages, rfl, hstages⟩ := h
  intro es hmem
  obtain ⟨op, hop, body, he⟩ := hstages _ hmem
  cases he
  exact hops hop

theorem find_stages {base? : Option Value} {p : SelectOf Value} {command : Value}
    (h : Command.findCommand base? p = .ok command) : stagesOf command = [] := by
  unfold stagesOf
  split
  · rename_i stages hstages
    exact absurd hstages (find_no_pipeline h _)
  · rfl

/-- The command of a statement computes aggregates before they are used, and tests columns where the
groups hold them, just if neither the statement nor a subquery tests groups or aggregates or is
ordered by aggregates, or if the statement groups the rows of one table and tests what is in the
groups. -/
theorem aggregates_computed_exact {schema command : Value} {sql : String} {line : Nat} {q : Query}
    {d : Derivation .query} (hparse : Sql.parse sql line = .ok q)
    (hd : d.yield = (scan sql line).tokens.map (·.lexeme))
    (hcommand : Pipeline.command schema sql line = .ok command) :
    ComputesFirst q (orderAggregates d) command ↔
      ((∀ s ∈ statementsOf q, clauseAggregates s.condition? = [] ∧ s.having? = none) ∧
        orderAggregates d = []) ∨
        ∃ t, q.source = .table t ∧ q.condition?.any asksQuery = false ∧ groupsRows q = true ∧
          TestsGroups q (orderAggregates d) t := by
  obtain ⟨q', hq', hcheck, htranslate⟩ := command_stages hcommand
  obtain rfl : q = q' := Except.ok.inj (hparse.symm.trans hq')
  rw [translate_of] at htranslate
  split at htranslate
  · rename_i hsub
    have hcommand := subquery_only (command_lift_ok.mp htranslate)
    rw [ungrouped_computes (runs_only_stages hcommand (by decide))]
    simp [hsub]
  · rename_i hsub
    cases hs : q.source with
    | join a b on =>
      rw [hs] at htranslate
      rw [ungrouped_computes (runs_only_stages (clause_join_only hs htranslate) (by decide))]
      simp
    | tables a b more =>
      rw [hs] at htranslate
      rw [ungrouped_computes (runs_only_stages (comma_join_only hs htranslate) (by decide))]
      simp
    | table t =>
      simp only [hs] at htranslate
      split at htranslate
      · rename_i hgroups
        obtain ⟨where?, having?, hw, hh, hpipeline⟩ := group_command_filters htranslate
        obtain ⟨string, rfl, -, -⟩ := pipeline_command_parts hpipeline
        have hno := Bool.eq_false_iff.mpr hsub
        have hhno := clause_filter_asks hh
        rw [group_computes (parse_named hparse) hs (statement_alone hs hno hhno) hw hh
          (order_written hparse hd hs hno hhno)]
        constructor
        · intro h
          exact .inr ⟨t, rfl, hno, hgroups, h⟩
        · rintro (⟨hnone, horder⟩ | ⟨t', ht, -, -, h⟩)
          · obtain ⟨hcondition, hhaving⟩ := hnone q (mem_statements q)
            refine ⟨hcondition, ?_, ?_, ?_⟩
            · simp [hhaving, clauseAggregates]
            · simp [hhaving, clauseColumns]
            · simp [horder]
          · cases ht
            exact h
      · rename_i hgroups
        rw [ungrouped_computes (by simp [find_stages htranslate])]
        simp [hgroups]

def crowdedText : String :=
  "SELECT city, COUNT(*) FROM users GROUP BY city HAVING COUNT(*) > 1 ORDER BY COUNT(*) DESC;"

/-- The cities of several users, the greatest ones first. -/
def crowded : Query :=
  ⟨.items (.column ⟨none, "city"⟩) [.aggregate .countAll], .table "users", none, ["city"],
    some (.aggregate .countAll .gt (.number 1)), [⟨"count", .desc⟩], none⟩

def countWritten : Derivation .aggregate :=
  .count (.keyword _ "COUNT") (.symbol _) (.symbol _) (.symbol _)

def crowdedWritten : Derivation .query :=
  .query (.keyword _ "SELECT")
    (.someColumns (.more .columns (.one .columns (.column (.columnRef (.identifier "city"))))
      (.symbol _) (.columnCount (.keyword _ "COUNT") (.symbol _) (.symbol _) (.symbol _))))
    (.keyword _ "FROM") (.table (.identifier "users")) (.noClause .condition .empty)
    (.byClause .group (.keyword _ "GROUP") (.keyword _ "BY") (.one .names (.identifier "city")))
    (.clause .having (.keyword _ "HAVING") (.term (.comparison (.compareAggregate countWritten
      (.operator .gt (.symbol _)) (.numberLiteral (.number 1))))))
    (.byClause .order (.keyword _ "ORDER") (.keyword _ "BY")
      (.one .orderItems (.orderAggregateBy .desc countWritten (.keyword _ "DESC"))))
    (.noClause .limit .empty) (.symbol _)

theorem aggregates_computed_crowded :
    Sql.parse crowdedText 1 = .ok crowded ∧
      crowdedWritten.yield = (scan crowdedText 1).tokens.map (·.lexeme) ∧
      orderAggregates crowdedWritten = [.countAll] ∧ ∃ command,
        Pipeline.command shopSchema crowdedText 1 = .ok command ∧
        ComputesFirst crowded (orderAggregates crowdedWritten) command := by
  have hscan : (scan crowdedText 1).error? = none ∧
      (scan crowdedText 1).tokens.map (·.lexeme) = queryLexemes crowded :=
    lexemes_scanned ⟨rfl, rfl⟩
  have hparse : Sql.parse crowdedText 1 = .ok crowded := parse_lexemes hscan rfl
  have hwritten : crowdedWritten.yield = (scan crowdedText 1).tokens.map (·.lexeme) := by
    rw [hscan.2]
    rfl
  obtain ⟨tree, command, htree, htranslate⟩ : ∃ tree command,
      Pipeline.check shopSchema crowded.toValue = .ok tree ∧
        Pipeline.translate tree = .ok command := ⟨_, _, rfl, rfl⟩
  have hcommand := command_of_stages hparse htree htranslate
  refine ⟨hparse, hwritten, rfl, command, hcommand,
    (aggregates_computed_exact hparse hwritten hcommand).mpr (.inr ⟨"users", rfl, rfl, rfl, ?_⟩)⟩
  have hselected : .countAll ∈ selectedAggregates (selectedItems crowded.items) :=
    List.mem_singleton_self _
  exact ⟨rfl, List.forall_mem_singleton.mpr ⟨hselected, List.not_mem_nil⟩, nofun,
    List.forall_mem_singleton.mpr ⟨hselected, by decide⟩⟩

def crowdedNamesText : String := "SELECT city FROM users GROUP BY city HAVING COUNT(*) > 1;"

def crowdedNames : Query :=
  ⟨.items (.column ⟨none, "city"⟩) [], .table "users", none, ["city"],
    some (.aggregate .countAll .gt (.number 1)), [], none⟩

def crowdedNamesWritten : Derivation .query :=
  .query (.keyword _ "SELECT")
    (.someColumns (.one .columns (.column (.columnRef (.identifier "city")))))
    (.keyword _ "FROM") (.table (.identifier "users")) (.noClause .condition .empty)
    (.byClause .group (.keyword _ "GROUP") (.keyword _ "BY") (.one .names (.identifier "city")))
    (.clause .having (.keyword _ "HAVING") (.term (.comparison (.compareAggregate countWritten
      (.operator .gt (.symbol _)) (.numberLiteral (.number 1))))))
    (.noByClause .order .empty) (.noClause .limit .empty) (.symbol _)

/-- A count that is tested but not selected is not computed. -/
theorem unselected_count_missing :
    ¬ ∀ (schema : Value) (sql : String) (line : Nat) (q : Query) (d : Derivation .query)
      (command : Value), Schema.check schema = .ok () → Sql.parse sql line = .ok q →
      d.yield = (scan sql line).tokens.map (·.lexeme) →
      Pipeline.command schema sql line = .ok command →
      ComputesFirst q (orderAggregates d) command := by
  intro hall
  have hscan : (scan crowdedNamesText 1).error? = none ∧
      (scan crowdedNamesText 1).tokens.map (·.lexeme) = queryLexemes crowdedNames :=
    lexemes_scanned ⟨rfl, rfl⟩
  have hparse : Sql.parse crowdedNamesText 1 = .ok crowdedNames := parse_lexemes hscan rfl
  have hwritten : crowdedNamesWritten.yield =
      (scan crowdedNamesText 1).tokens.map (·.lexeme) := by
    rw [hscan.2]
    rfl
  let group := doc [("$group", doc [("_id", .text "$city")])]
  let test := Command.matchStage (doc [("count", doc [("$gt", .int 1)])])
  let shown := doc [("$project", doc [("city", .text "$_id"), ("_id", .int 0)])]
  obtain ⟨tree, command, htree, htranslate, hstages⟩ : ∃ tree command,
      Pipeline.check shopSchema crowdedNames.toValue = .ok tree ∧
        Pipeline.translate tree = .ok command ∧ stagesOf command = [group, test, shown] :=
    ⟨_, _, rfl, rfl, rfl⟩
  have hcomputes := hall shopSchema crowdedNamesText 1 _ crowdedNamesWritten command rfl hparse
    hwritten (command_of_stages hparse htree htranslate)
  have htests : FiltersBy test "count" := by
    simp [test, filters_by_match, doc, testedFields, testedEntries]
  obtain ⟨-, hafter⟩ := hcomputes.tested crowdedNames List.mem_cons_self .countAll
    (List.mem_singleton_self _)
  obtain ⟨g, hg, es, he, hget⟩ := hafter [group] test [shown] hstages htests
  obtain rfl := List.mem_singleton.mp hg
  obtain rfl : es = [(.text "_id", .text "$city")] := by simpa [group, doc] using he.symm
  cases hget

end DocQuery.Proofs
