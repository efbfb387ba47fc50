import DocQuery.Proofs.StageOrder

namespace DocQuery.Proofs

open Sql
open Value (doc)

/-- A command runs a pipeline with a stage. -/
def HasStage (command stage : Value) : Prop :=
  ∃ stages, command.entry "pipeline" = .ok (.list stages) ∧ stage ∈ stages

/-- A command carries the clauses of a statement: the limit; an order by every column, under the
name that it has in the groups; the groups, if rows are grouped or an aggregate is selected; and
after them the test of groups. -/
structure CarriesClauses (q : Query) (command : Value) : Prop where
  limit : ∀ n : Nat, q.limit? = some n →
    command.entry "limit" = .ok (.int n) ∨ HasStage command (doc [("$limit", .int n)])
  order : q.orderBy ≠ [] → ∃ keys,
    (command.entry "sort" = .ok (.dict keys) ∨ HasStage command (doc [("$sort", .dict keys)])) ∧
      ∀ o ∈ q.orderBy, Entries.has keys (.text (orderName q.groupBy o.column)) = true
  groups : groupsRows q = true → ∃ body, HasStage command (doc [("$group", body)])
  having : ∀ c, q.having? = some c → ∃ stages body filter,
    command.entry "pipeline" = .ok (.list stages) ∧
      Command.filter (some (sourceTable q.source)) c.toValue = .ok filter ∧
      [doc [("$group", body)], Command.matchStage filter].Sublist stages

/-- A command runs a pipeline of stages with certain operators only. -/
def RunsOnly (ops : List String) (command : Value) : Prop :=
  ∃ string collection stages, command = pipelineDocument string collection stages ∧
    ∀ s ∈ stages, ∃ op ∈ ops, ∃ body, s = doc [(op, body)]

/-- The operators of the stages that join collections. -/
def joinOperators : List String := ["$lookup", "$unwind", "$match", "$addFields", "$project"]

theorem runs_only {collection command : Value} {stages : List Value}
    (h : Command.pipelineCommand collection stages = .ok command)
    (hs : ∀ s ∈ stages, ∃ op ∈ joinOperators, ∃ body, s = doc [(op, body)]) :
    RunsOnly joinOperators command := by
  obtain ⟨string, rfl, -, -⟩ := pipeline_command_parts h
  exact ⟨string, collection, stages, rfl, hs⟩

theorem lookup_only (source l f : Value) :
    ∃ op ∈ joinOperators, ∃ body, Command.lookupStage source l f = doc [(op, body)] :=
  ⟨"$lookup", by decide, _, rfl⟩

theorem match_only (filter : Value) :
    ∃ op ∈ joinOperators, ∃ body, Command.matchStage filter = doc [(op, body)] :=
  ⟨"$match", by decide, filter, rfl⟩

theorem project_only (shown : Entries) :
    ∃ op ∈ joinOperators, ∃ body, Command.projectStage shown = doc [(op, body)] :=
  ⟨"$project", by decide, _, rfl⟩

theorem subquery_only {p : SelectOf Value} {command : Value}
    (h : Command.subqueryCommand p = .ok command) : RunsOnly joinOperators command := by
  simp only [Command.subqueryCommand, bind_ok] at h
  obtain ⟨_, -, field, -, sub, -, _, -, column, -, found, -, _, -, shown, -, h⟩ := h
  refine runs_only h fun s hs => ?_
  rcases List.mem_append.mp hs with hs | hs
  · rcases List.mem_pair.mp hs with rfl | rfl
    · exact lookup_only _ _ _
    · exact match_only _
  · split at hs
    · cases hs
    · obtain rfl := List.mem_singleton.mp hs
      exact project_only shown

theorem join_only {collection l r command : Value} {b : String} {filter? : Option Value}
    {rest : List Value} (hr : ∀ s ∈ rest, ∃ op ∈ joinOperators, ∃ body, s = doc [(op, body)])
    (h : Command.pipelineCommand collection ([Command.lookupStage (.text b) l r,
      doc [("$unwind", .text ("$" ++ b))]] ++ (filter?.map Command.matchStage).toList ++ rest) =
        .ok command) : RunsOnly joinOperators command := by
  refine runs_only h fun s hs => ?_
  simp only [List.mem_append, List.mem_cons, List.not_mem_nil, or_false, Option.mem_toList,
    Option.map_eq_some_iff] at hs
  rcases hs with ((rfl | rfl) | ⟨filter, -, rfl⟩) | hs
  · exact lookup_only _ _ _
  · exact ⟨"$unwind", by decide, _, rfl⟩
  · exact match_only filter
  · exact hr s hs

theorem comma_join_only {q : Query} {a b : String} {more : List String} {command : Value}
    (hsource : q.source = .tables a b more)
    (h : Command.commaJoin (some (textList (a :: b :: more))) none (partsOf q) = .ok command) :
    RunsOnly joinOperators command := by
  obtain ⟨_, _, _, _, _, _, shown, -, -, -, -, -, h⟩ := comma_pipeline hsource h
  refine join_only (fun s hs => ?_) h
  obtain rfl := List.mem_singleton.mp hs
  exact project_only shown

theorem clause_join_only {q : Query} {a b : String} {on : Condition} {command : Value}
    (hsource : q.source = .join a b on)
    (h : Command.clauseJoin (some (.text a)) (partsOf q) = .ok command) :
    RunsOnly joinOperators command := by
  obtain ⟨_, _, _, _, _, moved, shown, -, -, -, h⟩ := clause_join_parts hsource h
  refine join_only (fun s hs => ?_) h
  rcases List.mem_append.mp hs with hs | hs
  · split at hs
    · cases hs
    · obtain rfl := List.mem_singleton.mp hs
      exact ⟨"$addFields", by decide, _, rfl⟩
  · obtain rfl := List.mem_singleton.mp hs
    exact project_only shown

theorem RunsOnly.no_stage {ops : List String} {command : Value} (h : RunsOnly ops command)
    {op : String} (hop : op ∉ ops) (body : Value) : ¬ HasStage command (doc [(op, body)]) := by
  rintro ⟨stages', hentry, hmem⟩
  obtain ⟨string, collection, stages, rfl, hstages⟩ := h
  cases hentry
  obtain ⟨op', hop', body', he⟩ := hstages _ hmem
  cases he
  exact hop hop'

/-- A pipeline without stages for clauses carries them only if there are none. -/
theorem joined_carries {q : Query} {command : Value} (h : RunsOnly joinOperators command)
    (hhaving : ∀ c, q.having? = some c → q.groupBy ≠ []) :
    CarriesClauses q command ↔ q.limit? = none ∧ q.orderBy = [] ∧ groupsRows q = false := by
  have hentry : ∀ v, command.entry "limit" ≠ .ok v ∧ command.entry "sort" ≠ .ok v := by
    obtain ⟨string, collection, stages, rfl, -⟩ := h
    intro v
    exact ⟨nofun, nofun⟩
  constructor
  · intro hcarries
    refine ⟨?_, ?_, ?_⟩
    · cases hl : q.limit? with
      | none => rfl
      | some n =>
        rcases hcarries.limit n hl with hlimit | hlimit
        · exact absurd hlimit (hentry _).1
        · exact absurd hlimit (h.no_stage (by decide) _)
    · by_contra horder
      obtain ⟨keys, hsort | hsort, -⟩ := hcarries.order horder
      · exact absurd hsort (hentry _).2
      · exact absurd hsort (h.no_stage (by decide) _)
    · cases hg : groupsRows q with
      | false => rfl
      | true =>
        obtain ⟨body, hgroup⟩ := hcarries.groups hg
        exact absurd hgroup (h.no_stage (by decide) _)
  · rintro ⟨hlimit, horder, hgroups⟩
    refine ⟨?_, ?_, ?_, ?_⟩
    · simp [hlimit]
    · simp [horder]
    · simp [hgroups]
    · intro c hc
      have hgroup := hhaving c hc
      simp [groupsRows, hgroup] at hgroups

theorem order_entries_has (cs : List String) {os : List OrderItem} {o : OrderItem} (ho : o ∈ os) :
    Entries.has (orderEntries cs os) (.text (orderName cs o.column)) = true := by
  rw [has_eq_get, orderEntries]
  refine put_all_some [] ?_
  rw [List.map_map]
  exact List.mem_map.mpr ⟨o, ho, rfl⟩

theorem group_carries {q : Query} {command : Value}
    (h : Command.groupCommand (some (sourceTable q.source)) (partsOf q) = .ok command) :
    CarriesClauses q command := by
  obtain ⟨where?, having?, -, hh, hcommand⟩ := group_command_filters h
  obtain ⟨string, rfl, -, -⟩ := pipeline_command_parts hcommand
  let group := doc [("$group", .dict (groupEntries q.groupBy (selectedItems q.items)))]
  have hmem : ∀ s, s ∈ groupStages q where? having? → HasStage (pipelineDocument string
      (sourceTable q.source) (groupStages q where? having?)) s := fun s hs => ⟨_, rfl, hs⟩
  refine ⟨?_, ?_, ?_, ?_⟩
  · intro n hn
    refine .inr (hmem _ ?_)
    simp [groupStages, closingStages, limitStages, hn]
  · intro horder
    refine ⟨orderEntries q.groupBy q.orderBy, .inr (hmem _ ?_),
      fun o ho => order_entries_has q.groupBy ho⟩
    simp [groupStages, closingStages, orderStages, horder]
  · intro _
    refine ⟨_, hmem group ?_⟩
    simp [groupStages, group]
  · intro c hc
    rw [hc] at hh
    cases hh with
    | @some f _ hf =>
      refine ⟨_, .dict (groupEntries q.groupBy (selectedItems q.items)), f, rfl, hf, ?_⟩
      have hpair : ([group] ++ [Command.matchStage f]).Sublist
          ((where?.map Command.matchStage).toList ++ [group] ++ [Command.matchStage f]) :=
        (List.sublist_append_right _ _).append (List.Sublist.refl _)
      exact hpair.trans (List.sublist_append_left _ _)

theorem sort_of (os : List OrderItem) :
    Command.sort (.list (os.map OrderItem.toValue)) = .ok (.dict (orderEntries [] os)) := by
  have hput : ∀ es (o : OrderItem), Command.putOrder es o.toValue =
      .ok (Entries.put es (.text (orderName [] o.column)) (directionSign o.direction)) := by
    intro es o
    simp only [OrderItem.toValue, Command.putOrder, direction_of]
    rfl
  simp only [Command.sort, Value.items, ok_bind, List.foldlM_map]
  rw [insert_all (fun o => orderName [] o.column) (fun o => directionSign o.direction) os _ hput]
  rfl

theorem entry_of_get {es : Entries} {key : String} {v : Value}
    (h : Entries.get? es (.text key) = some v) : (Value.dict es).entry key = .ok v := by
  simp only [Value.entry, Value.index, as_key_text, ok_bind, h]

theorem find_carries {q : Query} {base? : Option Value} {command : Value}
    (h : Command.findCommand base? (partsOf q) = .ok command) (hgroups : groupsRows q = false)
    (hhaving : ∀ c, q.having? = some c → q.groupBy ≠ []) : CarriesClauses q command := by
  obtain ⟨parts, string, rfl, -, -, hsort, hlimit, -⟩ := find_command_parts h
  obtain ⟨-, hgroup⟩ : selectedAggregates (selectedItems q.items) = [] ∧ q.groupBy = [] := by
    simpa [groupsRows] using hgroups
  refine ⟨?_, ?_, ?_, ?_⟩
  · intro n hn
    refine .inl ?_
    have hget : Entries.get? (parts.entries string) (.text "limit") = some (.int n) := by
      rw [FindParts.get_limit, hlimit]
      simp [partsOf, hn, optionalNumber, Command.limitOf]
    rw [FindParts.to_value_entries]
    exact entry_of_get hget
  · intro horder
    refine ⟨orderEntries q.groupBy q.orderBy, .inl ?_, fun o ho => order_entries_has q.groupBy ho⟩
    have hget : Entries.get? (parts.entries string) (.text "sort") =
        some (.dict (orderEntries q.groupBy q.orderBy)) := by
      have hpresent : (partsOf q).orderBy.present = true := by
        simp [partsOf, Value.present, horder]
      rw [Command.sortOf, if_pos hpresent] at hsort
      simp only [partsOf, sort_of, ok_bind] at hsort
      rw [FindParts.get_sort, hgroup]
      exact (Except.ok.inj hsort).symm
    rw [FindParts.to_value_entries]
    exact entry_of_get hget
  · simp [hgroups]
  · intro c hc
    exact absurd hgroup (hhaving c hc)

/-- Only groups are tested. -/
theorem having_grouped {schema : Value} {q : Query}
    (h : (Check.check schema q.toValue).outcome = .ok ()) :
    ∀ c, q.having? = some c → q.groupBy ≠ [] := by
  intro c hc hgroup
  obtain ⟨subquery, haccepted⟩ := accepted_parts h
  obtain ⟨p, hp, hhaving⟩ := haccepted.having
  obtain ⟨-, -, -, -, groupBy, having, -, -, -⟩ := hp
  have hpresent : p.having.present = true := by
    rw [hc] at having
    cases having with
    | some hv => exact tree_present hv
  have hnone : p.groupBy.present = false := by
    rw [groupBy, hgroup]
    rfl
  rw [Check.checkHaving, if_pos hpresent, if_neg (by simp [hnone])] at hhaving
  cases hhaving

/-- A command carries the clauses of its statement exactly if it is for one table and without
subqueries, or if there is no clause to carry. -/
theorem clauses_carried_exact {schema command : Value} {sql : String} {line : Nat} {q : Query}
    (hparse : Sql.parse sql line = .ok q)
    (hcommand : Pipeline.command schema sql line = .ok command) :
    CarriesClauses q command ↔
      ((∃ t, q.source = .table t) ∧ q.condition?.any asksQuery = false) ∨
        (q.limit? = none ∧ q.orderBy = [] ∧ groupsRows q = false) := by
  obtain ⟨q', hq', hcheck, htranslate⟩ := command_stages hcommand
  obtain rfl : q = q' := Except.ok.inj (hparse.symm.trans hq')
  have hhaving := having_grouped hcheck
  rw [translate_of] at htranslate
  split at htranslate
  · rename_i hsub
    rw [joined_carries (subquery_only (command_lift_ok.mp htranslate)) hhaving]
    simp [hsub]
  · rename_i hsub
    cases hs : q.source with
    | join a b on =>
      rw [hs] at htranslate
      rw [joined_carries (clause_join_only hs htranslate) hhaving]
      simp
    | tables a b more =>
      rw [hs] at htranslate
      rw [joined_carries (comma_join_only hs htranslate) hhaving]
      simp
    | table a =>
      have hcarries : CarriesClauses q command := by
        simp only [hs] at htranslate
        split at htranslate
        · refine group_carries ?_
          rw [hs]
          exact htranslate
        · rename_i hgroups
          exact find_carries htranslate (Bool.eq_false_iff.mpr hgroups) hhaving
      simp [hcarries, hsub]

def busyCitiesText : String :=
  "SELECT city, COUNT(*) FROM users GROUP BY city HAVING COUNT(*) > 1 ORDER BY city LIMIT 2;"

/-- The first two cities of several users. -/
def busyCities : Query :=
  ⟨.items (.column ⟨none, "city"⟩) [.aggregate .countAll], .table "users", none, ["city"],
    some (.aggregate .countAll .gt (.number 1)), [⟨"city", .asc⟩], some 2⟩

theorem clauses_carried_cities :
    Sql.parse busyCitiesText 1 = .ok busyCities ∧ ∃ command,
      Pipeline.command shopSchema busyCitiesText 1 = .ok command ∧
      CarriesClauses busyCities command := by
  have hparse : Sql.parse busyCitiesText 1 = .ok busyCities :=
    parse_lexemes (lexemes_scanned ⟨rfl, rfl⟩) rfl
  obtain ⟨tree, command, htree, htranslate⟩ : ∃ tree command,
      Pipeline.check shopSchema busyCities.toValue = .ok tree ∧
        Pipeline.translate tree = .ok command := ⟨_, _, rfl, rfl⟩
  have hcommand := command_of_stages hparse htree htranslate
  exact ⟨hparse, command, hcommand,
    (clauses_carried_exact hparse hcommand).mpr (.inl ⟨⟨"users", rfl⟩, rfl⟩)⟩

/-- Five amounts, with the cities of the users. -/
def fiveAmounts : Query :=
  ⟨.items (.column ⟨some "users", "city"⟩) [.column ⟨some "orders", "amount"⟩],
    .join "users" "orders"
      (.compare ⟨some "users", "id"⟩ .eq (.column ⟨some "orders", "user_id"⟩)),
    none, [], none, [], some 5⟩

/-- The limit of a join is lost. -/
theorem clauses_lost :
    ¬ ∀ {schema command : Value} {sql : String} {line : Nat} {q : Query},
      Schema.check schema = .ok () → Sql.parse sql line = .ok q →
      Pipeline.command schema sql line = .ok command → CarriesClauses q command := by
  intro hall
  have hparse : Sql.parse ("SELECT users.city, orders.amount FROM users JOIN orders " ++
      "ON users.id = orders.user_id LIMIT 5;") 1 = .ok fiveAmounts :=
    parse_lexemes (lexemes_scanned_append ⟨rfl, rfl⟩) rfl
  obtain ⟨tree, command, htree, htranslate⟩ : ∃ tree command,
      Pipeline.check shopSchema fiveAmounts.toValue = .ok tree ∧
        Command.translate tree = .ok command := ⟨_, _, rfl, rfl⟩
  have hcarries := hall rfl hparse
    (command_of_stages hparse htree (map_error_ok.mpr htranslate))
  rw [translate_checked htree, translate_of] at htranslate
  have honly : RunsOnly joinOperators command := clause_join_only rfl htranslate
  obtain ⟨hlimit, -⟩ := (joined_carries honly (by simp [fiveAmounts])).mp hcarries
  cases hlimit

end DocQuery.Proofs
