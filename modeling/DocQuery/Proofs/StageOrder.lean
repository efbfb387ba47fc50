import DocQuery.Proofs.Groupings
import DocQuery.Proofs.Lexemes

namespace DocQuery.Proofs

open Sql
open Value (doc)

mutual
/-- The fields that a filter tests. -/
def testedFields : Value → List String
  | .dict es => testedEntries es
  | _ => []

def testedEntries : List (Value × Value) → List String
  | [] => []
  | (.text key, .list cs) :: es =>
    (if key = "$and" ∨ key = "$or" then testedAmong cs else [key]) ++ testedEntries es
  | (.text key, _) :: es => key :: testedEntries es
  | _ :: es => testedEntries es

def testedAmong : List Value → List String
  | [] => []
  | c :: cs => testedFields c ++ testedAmong cs
end

/-- The filter of a stage that is one. -/
def filterIn? : Value → Option Value
  | .dict [(.text "$match", f)] => some f
  | _ => none

/-- A field, or one inside it. -/
def within (name field : String) : Bool :=
  field == name || (name ++ ".").toList.isPrefixOf field.toList

/-- Whether a stage produces a field: a look-up and an unwinding produce an array and what is in it,
a grouping its accumulated fields. -/
def produces (stage : Value) (field : String) : Bool :=
  match stage with
  | .dict [(.text "$lookup", .dict es)] =>
    match Entries.field es "as" with
    | .text name => within name field
    | _ => false
  | .dict [(.text "$unwind", .text path)] => within (String.ofList (path.toList.drop 1)) field
  | .dict [(.text "$group", .dict es)] => field != "_id" && Entries.has es (.text field)
  | _ => false

/-- A stage filters by a field that another one produces. -/
def Depends (stage source : Value) : Prop :=
  ∃ f, filterIn? stage = some f ∧ ∃ x ∈ testedFields f, produces source x = true

/-- Every filter that stands after a stage on which it depends stands after it still. -/
def KeepsDependencies (old new : List Value) : Prop :=
  ∀ stage source, Depends stage source → [source, stage].Sublist old → [source, stage].Sublist new

/-- Some filter stands after a stage on which it depends. -/
def Waits (stages : List Value) : Prop :=
  ∃ stage source, Depends stage source ∧ [source, stage].Sublist stages

theorem waits_nil : ¬ Waits [] := by
  rintro ⟨stage, source, -, h⟩
  simp at h

theorem waits_single (s : Value) : ¬ Waits [s] := by
  rintro ⟨stage, source, -, h⟩
  have := h.length_le
  simp at this

theorem waits_append (xs ys : List Value) :
    Waits (xs ++ ys) ↔ Waits xs ∨ Waits ys ∨ ∃ s ∈ xs, ∃ m ∈ ys, Depends m s := by
  constructor
  · rintro ⟨m, s, hd, h⟩
    obtain ⟨l₁, l₂, he, h₁, h₂⟩ := List.sublist_append_iff.mp h
    match l₁, he with
    | [], he =>
      obtain rfl : [s, m] = l₂ := he
      exact .inr (.inl ⟨m, s, hd, h₂⟩)
    | [a], he =>
      obtain ⟨rfl, rfl⟩ : s = a ∧ [m] = l₂ := by simpa using he
      exact .inr (.inr ⟨s, List.singleton_sublist.mp h₁, m, List.singleton_sublist.mp h₂, hd⟩)
    | a :: b :: rest, he =>
      obtain ⟨rfl, rfl, hrest⟩ : s = a ∧ m = b ∧ rest ++ l₂ = [] := by
        simpa [eq_comm] using he
      obtain ⟨rfl, -⟩ := List.append_eq_nil_iff.mp hrest
      exact .inl ⟨m, s, hd, h₁⟩
  · rintro (⟨m, s, hd, h⟩ | ⟨m, s, hd, h⟩ | ⟨s, hs, m, hm, hd⟩)
    · exact ⟨m, s, hd, h.trans (List.sublist_append_left _ _)⟩
    · exact ⟨m, s, hd, h.trans (List.sublist_append_right _ _)⟩
    · refine ⟨m, s, hd, ?_⟩
      exact (List.singleton_sublist.mpr hs).append (List.singleton_sublist.mpr hm)

/-- A stage is a document with one entry. -/
def IsStage (s : Value) : Prop := ∃ op body, s = doc [(op, body)]

def isFilter (s : Value) : Bool := (filterIn? s).isSome

theorem not_filter {op : String} (body : Value) (h : op ≠ "$match") :
    filterIn? (doc [(op, body)]) = none := by
  simp only [doc, List.map_cons, List.map_nil, filterIn?]
  split
  · rename_i heq
    simp_all
  · rfl

theorem match_in_stage {s : Value} (h : IsStage s) :
    (Value.text "$match").isIn s = .ok (isFilter s) := by
  obtain ⟨op, body, rfl⟩ := h
  by_cases hop : op = "$match"
  · subst hop
    rfl
  · have hin : (Value.text "$match").isIn (doc [(op, body)]) = .ok false := by
      simp [doc, Value.isIn, Entries.has, hop]
    rw [hin, isFilter, not_filter body hop]
    rfl

theorem filter_not_source {s : Value} (h : isFilter s = true) (x : String) :
    produces s x = false := by
  obtain ⟨f, hf⟩ := Option.isSome_iff_exists.mp h
  unfold filterIn? at hf
  split at hf
  · rfl
  · cases hf

theorem Depends.filter {stage source : Value} (h : Depends stage source) :
    isFilter stage = true ∧ isFilter source = false := by
  obtain ⟨f, hf, x, -, hx⟩ := h
  refine ⟨by simp [isFilter, hf], ?_⟩
  cases hs : isFilter source with
  | false => rfl
  | true =>
    rw [filter_not_source hs] at hx
    cases hx

/-- The stages of a pipeline with the filters first. -/
def withFiltersFirst (stages : List Value) : List Value :=
  stages.filter isFilter ++ stages.filter (fun s => !isFilter s)

theorem filters_first_stages {stages : List Value} (h : ∀ s ∈ stages, IsStage s) :
    Command.filtersFirst (.list stages) = .ok (withFiltersFirst stages) := by
  have hmarked : stages.mapM (fun s => do return (← (Value.text "$match").isIn s, s)) =
      (.ok (stages.map (fun s => (isFilter s, s))) : Except Fault _) := by
    induction stages with
    | nil => rfl
    | cons s stages ih =>
      obtain ⟨hs, hstages⟩ := List.forall_mem_cons.mp h
      rw [List.mapM_cons, match_in_stage hs, ih hstages]
      rfl
  rw [Command.filtersFirst]
  simp only [Value.items, ok_bind]
  rw [hmarked]
  simp [withFiltersFirst, List.filter_map, Function.comp_def]

/-- No filter stands after a stage on which it depends once all filters are first. -/
theorem filters_first_keeps (stages : List Value) :
    KeepsDependencies stages (withFiltersFirst stages) ↔ ¬ Waits stages := by
  constructor
  · rintro hkeeps ⟨m, s, hd, h⟩
    obtain ⟨hm, hs⟩ := hd.filter
    have hnew := hkeeps m s hd h
    -- Of the two, the filter can only be in the first part and the other one in the second.
    obtain ⟨l₁, l₂, he, h₁, h₂⟩ := List.sublist_append_iff.mp hnew
    match l₁, he with
    | [], he =>
      obtain rfl : [s, m] = l₂ := he
      have := (List.mem_filter.mp (h₂.subset (List.mem_cons_of_mem s (List.mem_singleton_self m)))).2
      simp [hm] at this
    | a :: rest, he =>
      obtain rfl : s = a := (List.cons.inj he).1
      have := (List.mem_filter.mp (h₁.subset List.mem_cons_self)).2
      simp [hs] at this
  · intro hnone m s hd h
    exact absurd ⟨m, s, hd, h⟩ hnone

theorem filters_first_mem {stages : List Value} {s : Value} :
    s ∈ withFiltersFirst stages ↔ s ∈ stages := by
  cases hs : isFilter s <;> simp [withFiltersFirst, List.mem_filter, hs]

/-- A pipeline is simplified by moving its filters. -/
theorem simplify_moved (string : String) (collection : Value) (stages : List Value) :
    Command.simplify (pipelineDocument string collection stages) = do
      let moved ← Command.filtersFirst (.list stages)
      let text ← Command.pipelineCommandText (pipelineDocument string collection moved)
      return pipelineDocument text collection moved := rfl

theorem pipeline_command_text {collection : Value} {name text : String} {stages : List Value}
    (string : String) (hname : collection.str = .ok name)
    (htext : (Value.list stages).str = .ok text) :
    Command.pipelineCommandText (pipelineDocument string collection stages) =
      .ok (Command.pipelineText name text) := by
  have hcollection : (pipelineDocument string collection stages).entry "collection" =
      .ok collection := rfl
  have hpipeline : (pipelineDocument string collection stages).entry "pipeline" =
      .ok (.list stages) := rfl
  simp only [Command.pipelineCommandText, hcollection, hpipeline, hname, htext, ok_bind, pure_ok]

/-- A pipeline is always simplified, and only the order of its stages changes. -/
theorem simplify_pipeline {collection : Value} {stages : List Value} (string : String)
    (hstages : ∀ s ∈ stages, IsStage s) (hname : Succeeds collection.str)
    (hshown : ∀ s ∈ stages, Succeeds s.literal) :
    ∃ string', Command.simplify (pipelineDocument string collection stages) =
      .ok (pipelineDocument string' collection (withFiltersFirst stages)) := by
  obtain ⟨name, hname⟩ := hname
  obtain ⟨text, htext⟩ : Succeeds (Value.list (withFiltersFirst stages)).str :=
    map_error_succeeds.mpr
      (literal_list_succeeds.mpr fun s hs => hshown s (filters_first_mem.mp hs))
  refine ⟨Command.pipelineText name text, ?_⟩
  rw [simplify_moved, filters_first_stages hstages, ok_bind,
    pipeline_command_text string hname htext]
  rfl

/-- A command that finds documents has no pipeline. -/
theorem find_no_pipeline {base? : Option Value} {p : SelectOf Value} {command : Value}
    (h : Command.findCommand base? p = .ok command) (stages : Value) :
    command.entry "pipeline" ≠ .ok stages := by
  obtain ⟨parts, string, rfl, -, -⟩ := find_command_parts h
  rw [FindParts.to_value_entries]
  obtain ⟨_, _, _, sort?, limit?⟩ := parts
  cases sort? <;> cases limit? <;> (intro he; cases he)

theorem depends_match (f source : Value) :
    Depends (Command.matchStage f) source ↔ ∃ x ∈ testedFields f, produces source x = true := by
  simp [Depends, Command.matchStage, doc, filterIn?]

theorem produces_lookup (b x : String) (l f : Value) :
    produces (Command.lookupStage (.text b) l f) x = within b x := rfl

theorem produces_unwind (b x : String) :
    produces (doc [("$unwind", .text ("$" ++ b))]) x = within b x := by
  have hpath : ("$" ++ b).toList.drop 1 = b.toList := by simp
  simp only [doc, List.map_cons, List.map_nil, produces, hpath, String.ofList_toList]

/-- The fields that a filter tests, where there is one. -/
def testedBy (filter? : Option Value) : List String := filter?.elim [] testedFields

/-- Where just one filter stands after any source, filters wait if this one depends on a source. -/
theorem waits_around {before rest : List Value} (filter? : Option Value) (hb : ¬ Waits before)
    (hr : ∀ s ∈ rest, filterIn? s = none) :
    Waits (before ++ (filter?.map Command.matchStage).toList ++ rest) ↔
      ∃ s ∈ before, ∃ x ∈ testedBy filter?, produces s x = true := by
  have hnone : ∀ m ∈ rest, ∀ s, ¬ Depends m s := by
    rintro m hm s ⟨f, hf, -⟩
    rw [hr m hm] at hf
    cases hf
  have hrest : ¬ Waits rest := by
    rintro ⟨m, s, hd, h⟩
    exact hnone m (h.subset (List.mem_cons_of_mem s (List.mem_singleton_self m))) s hd
  have hafter : ∀ xs : List Value, ¬ ∃ s ∈ xs, ∃ m ∈ rest, Depends m s := by
    rintro xs ⟨s, -, m, hm, hd⟩
    exact hnone m hm s hd
  simp only [waits_append, hb, hrest, hafter, false_or, or_false]
  cases filter? with
  | none => simp [waits_nil, testedBy]
  | some f => simp [waits_single, testedBy, depends_match]

/-- The fields that a condition tests, for a base table. A subquery has no filter. -/
def testedNames (base? : Option Value) : Condition → List String
  | .connect l _ r => testedNames base? l ++ testedNames base? r
  | .compare c _ _ => [columnField base? c]
  | .aggregate a _ _ => [aggregateName a]
  | .between c _ _ => [c]
  | .inList c _ _ => [columnField base? c]
  | .inQuery _ _ => []

theorem document_tests {name : String} {v f : Value} {t : Command.Test}
    (hv : t = .eq → ∀ vs, v ≠ .list vs) (h : t.document (.text name) v = .ok f) :
    testedFields f = [name] := by
  cases t with
  | eq =>
    cases h
    cases v with
    | list vs => exact absurd rfl (hv rfl vs)
    | _ => simp [testedFields, testedEntries]
  | between =>
    simp only [Command.Test.document, bind_ok] at h
    obtain ⟨bounds, -, hx⟩ := h
    cases hx
    simp [testedFields, testedEntries, doc]
  | _ =>
    cases h
    simp [testedFields, testedEntries, doc]

/-- The filter of a comparison is the document of its test. -/
theorem comparison_document {base? : Option Value} {i o v f : Value} {name : String}
    (hi : Command.fieldOf base? i = .ok (.text name))
    (h : Command.filter base? (.comparison i o v) = .ok f) :
    ∃ t, Command.testOf o = .ok t ∧ t.document (.text name) v = .ok f := by
  simp only [Command.filter, hi, command_lift, ok_bind, bind_ok, command_lift_ok] at h
  exact h

theorem comparison_tests {base? : Option Value} {i o v f : Value} {name : String}
    (hi : Command.fieldOf base? i = .ok (.text name)) (hv : ∀ vs, v ≠ .list vs)
    (h : Command.filter base? (.comparison i o v) = .ok f) : testedFields f = [name] := by
  obtain ⟨t, -, hf⟩ := comparison_document hi h
  exact document_tests (fun _ => hv) hf

theorem operand_not_list (x : Operand) (vs : List Value) : x.toValue ≠ .list vs := by
  cases x with
  | column c => simp [Operand.toValue, ColumnRef.toValue, doc]
  | literal l => cases l <;> simp [Operand.toValue, Literal.toValue]

/-- The filter of a condition tests the fields of its comparisons. -/
theorem filter_tests {base? : Option Value} {c : Condition} {f : Value}
    (h : Command.filter base? c.toValue = .ok f) : testedFields f = testedNames base? c := by
  match c with
  | .compare c r x =>
    rw [Condition.toValue] at h
    exact comparison_tests (field_of_ref base? c) (operand_not_list x) h
  | .aggregate a r l =>
    rw [Condition.toValue] at h
    exact comparison_tests (field_of_aggregate base? a) (operand_not_list (.literal l)) h
  | .between c low high =>
    rw [Condition.toValue] at h
    exact comparison_tests rfl (by simp) h
  | .inList c l ls =>
    rw [Condition.toValue] at h
    simp only [Command.filter, field_of_ref, command_lift, ok_bind] at h
    exact document_tests (t := .member) (by simp) (command_lift_ok.mp h)
  | .inQuery c q =>
    rw [Condition.toValue] at h
    simp only [Command.filter, field_of_ref, command_lift, ok_bind] at h
    cases h
  | .connect l w r =>
    rw [Condition.toValue, Command.filter] at h
    simp only [bind_ok] at h
    obtain ⟨left, hl, right, hr, key, hkey, hx⟩ := h
    cases hx
    have hword : key = "$and" ∨ key = "$or" := by
      simp only [Command.connectiveOf, Value.asText, command_lift, ok_bind] at hkey
      split at hkey
      · cases hkey; exact .inl rfl
      · cases hkey; exact .inr rfl
      · cases hkey
    simp [doc, testedFields, testedEntries, testedAmong, hword, filter_tests hl, filter_tests hr,
      testedNames]

/-- A command runs a pipeline in which filters wait, or not. -/
def RunsStages (command : Value) (waits : Bool) : Prop :=
  ∃ string collection stages, command = pipelineDocument string collection stages ∧
    Succeeds collection.str ∧ (∀ s ∈ stages, Succeeds s.literal) ∧ (∀ s ∈ stages, IsStage s) ∧
    (Waits stages ↔ waits = true)

theorem runs_stages {collection command : Value} {stages : List Value} {waits : Bool}
    (h : Command.pipelineCommand collection stages = .ok command)
    (hs : ∀ s ∈ stages, IsStage s) (hw : Waits stages ↔ waits = true) :
    RunsStages command waits := by
  obtain ⟨string, rfl, hname, hshown⟩ := pipeline_command_parts h
  exact ⟨string, collection, stages, rfl, hname, hshown, hs, hw⟩

/-- A stage that is no filter. -/
def OtherStage (s : Value) : Prop := ∃ op body, s = doc [(op, body)] ∧ op ≠ "$match"

theorem OtherStage.stage {s : Value} (h : OtherStage s) : IsStage s := by
  obtain ⟨op, body, rfl, -⟩ := h
  exact ⟨op, body, rfl⟩

theorem OtherStage.no_filter {s : Value} (h : OtherStage s) : filterIn? s = none := by
  obtain ⟨op, body, rfl, hop⟩ := h
  exact not_filter body hop

theorem project_other (es : Entries) : OtherStage (Command.projectStage es) :=
  ⟨"$project", _, rfl, by decide⟩

/-- Stages, a filter that may be absent, and other stages. -/
theorem stages_around {before rest : List Value} {filter? : Option Value}
    (hb : ∀ s ∈ before, IsStage s) (hr : ∀ s ∈ rest, OtherStage s) :
    ∀ s ∈ before ++ (filter?.map Command.matchStage).toList ++ rest, IsStage s := by
  intro s hs
  rcases List.mem_append.mp hs with hs | hs
  · rcases List.mem_append.mp hs with hs | hs
    · exact hb s hs
    · obtain ⟨f, -, rfl⟩ : ∃ f, filter? = some f ∧ Command.matchStage f = s := by simpa using hs
      exact ⟨"$match", f, rfl⟩
  · exact (hr s hs).stage

/-- In a join filters wait just if a field of the joined table is tested. -/
theorem join_stages {collection command l r : Value} {b : String} {rest : List Value}
    (filter? : Option Value) (hr : ∀ s ∈ rest, OtherStage s)
    (h : Command.pipelineCommand collection ([Command.lookupStage (.text b) l r,
      doc [("$unwind", .text ("$" ++ b))]] ++ (filter?.map Command.matchStage).toList ++ rest) =
        .ok command) :
    RunsStages command ((testedBy filter?).any (within b)) := by
  have hsources : ∀ s ∈ [Command.lookupStage (.text b) l r, doc [("$unwind", .text ("$" ++ b))]],
      OtherStage s := by
    intro s hs
    rcases List.mem_pair.mp hs with rfl | rfl
    · exact ⟨"$lookup", _, rfl, by decide⟩
    · exact ⟨"$unwind", _, rfl, by decide⟩
  have hbefore :
      ¬ Waits [Command.lookupStage (.text b) l r, doc [("$unwind", .text ("$" ++ b))]] := by
    rintro ⟨m, s, ⟨f, hf, -⟩, hsub⟩
    have hm := hsources m (hsub.subset (List.mem_cons_of_mem s (List.mem_singleton_self m)))
    rw [hm.no_filter] at hf
    cases hf
  refine runs_stages h (stages_around (fun s hs => (hsources s hs).stage) hr) ?_
  rw [waits_around filter? hbefore (fun s hs => (hr s hs).no_filter), List.any_eq_true]
  simp [produces_lookup, produces_unwind]

/-- The fields that a clause tests. -/
def clauseNames (base? : Option Value) (c? : Option Condition) : List String :=
  c?.elim [] (testedNames base?)

theorem clause_filter_tests {base? f? : Option Value} {c? : Option Condition}
    (h : ClauseFilter base? c? f?) : testedBy f? = clauseNames base? c? := by
  cases h with
  | none => rfl
  | some hf => exact filter_tests hf

/-- The pipeline of a join, and what its clauses become. -/
theorem clause_join_parts {q : Query} {a b : String} {on : Condition} {command : Value}
    (hsource : q.source = .join a b on)
    (h : Command.clauseJoin (some (.text a)) (partsOf q) = .ok command) :
    ∃ l o r fields where? moved shown, on.toValue = .comparison l o r ∧
      Command.joinFields (.text a) l r = .ok fields ∧
      ClauseFilter (some (.text a)) q.condition? where? ∧
      Command.pipelineCommand (.text a) ([Command.lookupStage (.text b) fields.1 fields.2,
        doc [("$unwind", .text ("$" ++ b))]] ++ (where?.map Command.matchStage).toList ++
          ((if moved.isEmpty then [] else [doc [("$addFields", .dict moved)]]) ++
            [Command.projectStage shown])) = .ok command := by
  have htable : (partsOf q).table = .text a := by simp [partsOf, hsource, sourceTable]
  have hcondition : (partsOf q).condition = optionalCondition q.condition? := rfl
  simp only [Command.clauseJoin, joins_first hsource, clause_table, clause_condition, htable,
    hcondition, unwind_text, command_lift, ok_bind, bind_ok, command_lift_ok] at h
  obtain ⟨⟨l, o, r⟩, hcomparison, fields, hfields, h⟩ := h
  have hon : on.toValue = .comparison l o r := by
    generalize on.toValue = v at hcomparison
    cases v with
    | comparison i p v =>
      cases hcomparison
      rfl
    | _ => cases hcomparison
  refine ⟨l, o, r, fields, ?_⟩
  cases hc : q.condition? with
  | none =>
    simp only [hc, optionalCondition, Value.present, Bool.false_eq_true, ↓reduceIte, pure_ok,
      ok_bind, bind_ok, command_lift_ok] at h
    obtain ⟨columns, -, ⟨moved, shown⟩, -, h⟩ := h
    exact ⟨none, moved, shown, hon, hfields, .none, by simpa using h⟩
  | some c =>
    simp only [hc, optionalCondition, condition_present, ↓reduceIte, pure_ok, ok_bind, bind_ok,
      command_lift_ok] at h
    obtain ⟨f, hf, columns, -, ⟨moved, shown⟩, -, h⟩ := h
    exact ⟨some f, moved, shown, hon, hfields, .some hf, by simpa using h⟩

theorem clause_join_stages {q : Query} {a b : String} {on : Condition} {command : Value}
    (hsource : q.source = .join a b on)
    (h : Command.clauseJoin (some (.text a)) (partsOf q) = .ok command) :
    RunsStages command ((clauseNames (some (.text a)) q.condition?).any (within b)) := by
  obtain ⟨_, _, _, _, where?, moved, shown, -, -, hwhere, h⟩ := clause_join_parts hsource h
  rw [← clause_filter_tests hwhere]
  refine join_stages where? (fun s hs => ?_) h
  rcases List.mem_append.mp hs with hs | hs
  · split at hs
    · cases hs
    · obtain rfl := List.mem_singleton.mp hs
      exact ⟨"$addFields", _, rfl, by decide⟩
  · obtain rfl := List.mem_singleton.mp hs
    exact project_other shown

/-- The comparisons of a condition that are not with a column. -/
def filterParts : Condition → List Condition
  | .connect l _ r => filterParts l ++ filterParts r
  | .compare _ _ (.column _) => []
  | c => [c]

/-- The comparisons of two columns. -/
def columnParts : Condition → List (ColumnRef × Relation × ColumnRef)
  | .connect l _ r => columnParts l ++ columnParts r
  | .compare c r (.column d) => [(c, r, d)]
  | _ => []

/-- The tree of a comparison of two columns. -/
def joinTree : ColumnRef × Relation × ColumnRef → Value
  | (c, r, d) => (Condition.compare c r (.column d)).toValue

/-- A condition is split into its first comparison of two columns and all comparisons that are not
with a column. -/
theorem split_condition_parts (c : Condition) :
    Command.splitConditions c.toValue =
      ((columnParts c).head?.map joinTree, (filterParts c).map Condition.toValue) := by
  match c with
  | .compare c r (.column d) => rw [Condition.toValue]; rfl
  | .compare c r (.literal l) =>
    cases l <;>
      simp [columnParts, filterParts, Condition.toValue, Operand.toValue, Literal.toValue,
        Command.splitConditions]
  | .aggregate a r l =>
    cases l <;>
      simp [columnParts, filterParts, Condition.toValue, Literal.toValue, Command.splitConditions]
  | .between c low high =>
    simp [columnParts, filterParts, Condition.toValue, Command.splitConditions]
  | .inList c l ls => simp [columnParts, filterParts, Condition.toValue, Command.splitConditions]
  | .inQuery c q =>
    obtain ⟨p, hp, -⟩ := statement_tree q
    simp [columnParts, filterParts, Condition.toValue, hp, Command.splitConditions]
  | .connect l w r =>
    rw [Condition.toValue, Command.splitConditions, split_condition_parts l,
      split_condition_parts r, columnParts, filterParts, List.head?_append, Option.map_or,
      List.map_append]

/-- The filter of a list of conditions: none, that of the only one, or those of all. -/
inductive Conjoined (base? : Option Value) : List Condition → Option Value → Prop where
  | none : Conjoined base? [] none
  | one {c : Condition} {f : Value} (h : Command.filter base? c.toValue = .ok f) :
      Conjoined base? [c] (some f)
  | all {cs : List Condition} {fs : List Value}
      (h : List.Forall₂ (fun c f => Command.filter base? c.toValue = .ok f) cs fs) :
      Conjoined base? cs (some (doc [("$and", .list fs)]))

theorem each_filter {base? : Option Value} {cs : List Condition} {fs : List Value}
    (h : (cs.map Condition.toValue).mapM (Command.filter base?) = .ok fs) :
    List.Forall₂ (fun c f => Command.filter base? c.toValue = .ok f) cs fs := by
  induction cs generalizing fs with
  | nil =>
    cases h
    exact .nil
  | cons c cs ih =>
    rw [List.map_cons, List.mapM_cons] at h
    simp only [bind_ok] at h
    obtain ⟨f, hf, fs', hfs, hx⟩ := h
    cases hx
    exact .cons hf (ih hfs)

theorem conjunction_cases {base? filter? : Option Value} {cs : List Condition}
    (h : Command.conjunction base? (cs.map Condition.toValue) = .ok filter?) :
    Conjoined base? cs filter? := by
  match cs with
  | [] =>
    cases h
    exact .none
  | [c] =>
    simp only [List.map_cons, List.map_nil, Command.conjunction, bind_ok] at h
    obtain ⟨f, hf, hx⟩ := h
    cases hx
    exact .one hf
  | c :: d :: cs =>
    simp only [List.map_cons, Command.conjunction, bind_ok] at h
    obtain ⟨fs, hfs, hx⟩ := h
    cases hx
    exact .all (@each_filter base? (c :: d :: cs) fs hfs)

theorem tested_among_filters {base? : Option Value} {cs : List Condition} {fs : List Value}
    (h : List.Forall₂ (fun c f => Command.filter base? c.toValue = .ok f) cs fs) :
    testedAmong fs = cs.flatMap (testedNames base?) := by
  induction h with
  | nil => rfl
  | cons hf _ ih => rw [testedAmong, filter_tests hf, ih, List.flatMap_cons]

theorem conjunction_tests {base? filter? : Option Value} {cs : List Condition}
    (h : Command.conjunction base? (cs.map Condition.toValue) = .ok filter?) :
    testedBy filter? = cs.flatMap (testedNames base?) := by
  cases conjunction_cases h with
  | none => rfl
  | one hf => simp [testedBy, filter_tests hf]
  | all hfs =>
    rw [← tested_among_filters hfs]
    simp [testedBy, doc, testedFields, testedEntries]

/-- The columns of the base table and of the joined one in a comparison. -/
def joinKeys (base : String) (c d : ColumnRef) : String × String :=
  if c.table? = some base then (c.name, d.name) else (d.name, c.name)

theorem join_fields_keys (base : String) (c d : ColumnRef) :
    Command.joinFields (.text base) c.toValue d.toValue =
      .ok (.text (joinKeys base c d).1, .text (joinKeys base c d).2) := by
  simp only [Command.joinFields, ref_table, ref_column, qualifier_same, ok_bind, joinKeys]
  by_cases hc : c.table? = some base <;> simp [hc]

/-- The stages before the projection. -/
def commaStages (base joined : String) (c d : ColumnRef) (filter? : Option Value) : List Value :=
  [Command.lookupStage (.text joined) (.text (joinKeys base c d).1) (.text (joinKeys base c d).2),
    doc [("$unwind", .text ("$" ++ joined))]] ++ (filter?.map Command.matchStage).toList

/-- The pipeline for a list of tables, of which the first two count. -/
theorem comma_pipeline {q : Query} {base joined : String} {more : List String} {command : Value}
    (hsource : q.source = .tables base joined more)
    (h : Command.commaJoin (some (textList (base :: joined :: more))) none (partsOf q) =
      .ok command) :
    ∃ w c r d filter? columns shown, q.condition? = some w ∧
      (columnParts w).head? = some (c, r, d) ∧
      Command.conjunction (some (textList (base :: joined :: more)))
        ((filterParts w).map Condition.toValue) = .ok filter? ∧
      q.items.toValue.items = .ok columns ∧
      Command.joinColumns (Command.tableWith none (textList (base :: joined :: more)))
        (.text joined) columns = .ok shown ∧
      Command.pipelineCommand (.text base)
        (commaStages base joined c d filter? ++ [Command.projectStage shown]) = .ok command := by
  have htable : (partsOf q).table = textList (base :: joined :: more) := by
    simp [partsOf, hsource, sourceTable]
  have hcondition : (partsOf q).condition = optionalCondition q.condition? := rfl
  have hleft : (textList (base :: joined :: more)).index (.int 0) = .ok (.text base) := rfl
  have hright : (textList (base :: joined :: more)).index (.int 1) = .ok (.text joined) := rfl
  simp only [Command.commaJoin, htable, hcondition, hleft, hright, command_lift, ok_bind] at h
  cases hw : q.condition? with
  | none =>
    rw [hw] at h
    cases h
  | some w =>
    simp only [hw, optionalCondition] at h
    split at h
    · rename_i i o v filters hsplit
      obtain ⟨hfirst, rfl⟩ := Prod.mk.inj ((split_condition_parts w).symm.trans hsplit)
      obtain ⟨⟨c, r, d⟩, hcolumns, hvalue⟩ := Option.map_eq_some_iff.mp hfirst
      have hvalue : Value.comparison c.toValue r.toValue d.toValue = .comparison i o v := hvalue
      cases hvalue
      simp only [join_fields_keys, unwind_text, command_lift, ok_bind, bind_ok,
        command_lift_ok] at h
      obtain ⟨filter?, hfilter, columns, hitems, shown, hshown, h⟩ := h
      exact ⟨w, c, r, d, filter?, columns, shown, rfl, hcolumns, hfilter, hitems, hshown, h⟩
    · cases h

theorem comma_join_stages {q : Query} {a b : String} {more : List String} {command : Value}
    (hsource : q.source = .tables a b more)
    (h : Command.commaJoin (some (textList (a :: b :: more))) none (partsOf q) = .ok command) :
    RunsStages command (((q.condition?.elim [] filterParts).flatMap
      (testedNames (some (textList (a :: b :: more))))).any (within b)) := by
  obtain ⟨w, c, r, d, filter?, _, shown, hw, -, hfilter, -, -, h⟩ := comma_pipeline hsource h
  rw [hw, Option.elim_some, ← conjunction_tests hfilter]
  refine join_stages filter? (fun s hs => ?_) h
  obtain rfl := List.mem_singleton.mp hs
  exact project_other shown

/-- Whether a condition asks for membership in the result of a subquery. -/
def asksQuery : Condition → Bool
  | .connect l _ r => asksQuery l || asksQuery r
  | .inQuery .. => true
  | _ => false

theorem has_subquery_condition (c : Condition) :
    Command.hasSubquery c.toValue = asksQuery c := by
  cases c with
  | compare c r x =>
    rw [Condition.toValue]
    exact relation_not_subquery r
  | aggregate a r l =>
    rw [Condition.toValue]
    exact relation_not_subquery r
  | between c low high => simp [Condition.toValue, Command.hasSubquery, asksQuery]
  | inList c l ls => simp [Condition.toValue, Command.hasSubquery, asksQuery]
  | inQuery c q => simp [Condition.toValue, Command.hasSubquery, asksQuery]
  | connect l w r =>
    simp [Condition.toValue, Command.hasSubquery, asksQuery, has_subquery_condition l,
      has_subquery_condition r]

/-- The first selected item has a column just if it is one. -/
theorem first_column {items : SelectList} {first column : Value}
    (hfirst : items.toValue.index (.int 0) = .ok first)
    (hcolumn : first.entry "column" = .ok column) :
    ∃ c cs, items = .items (.column c) cs ∧ column = .text c.name := by
  cases items with
  | all =>
    cases hfirst
    cases hcolumn
  | items x xs =>
    obtain rfl : x.toValue = first := Except.ok.inj hfirst
    cases x with
    | column c => exact ⟨c, xs, rfl, (Except.ok.inj hcolumn).symm⟩
    | aggregate a => cases a <;> cases hcolumn

/-- A membership is looked up in the table of its subquery. -/
theorem subquery_pipeline {p : SelectOf Value} {c : Condition} {command : Value}
    (hc : p.condition = c.toValue) (hasks : asksQuery c = true)
    (h : Command.subqueryCommand p = .ok command) :
    ∃ (x : ColumnRef) (inner : Query) (t : String) (a : ColumnRef) (more : List SelectItem)
        (columns : List Value) (shown : Entries), c = .inQuery x inner ∧
      sourceTable inner.source = .text t ∧ inner.items = .items (.column a) more ∧
      p.columns.items = .ok columns ∧ columns.foldlM Command.showPlain [] = .ok shown ∧
      Command.pipelineCommand p.table ([Command.lookupStage (.text t) (.text x.name) (.text a.name),
        Command.matchStage (doc [(t, doc [("$ne", .list [])])])] ++
          if shown.isEmpty then [] else [Command.projectStage shown]) = .ok command := by
  match c, hasks with
  | .connect l w r, _ =>
    rw [Condition.toValue] at hc
    simp only [Command.subqueryCommand, hc, Value.asComparison] at h
    cases h
  | .inQuery x inner, _ =>
    rw [Condition.toValue, ← Statement.toValue, statement_parts] at hc
    have hfield : Command.shownColumn x.toValue = .ok (.text x.name) := rfl
    simp only [Command.subqueryCommand, hc, Value.asComparison, Value.asSelect, hfield, ok_bind,
      bind_ok] at h
    obtain ⟨first, hfirst, column, hcolumn, found, hfound, columns, hcolumns, shown, hshown, h⟩ := h
    obtain ⟨a, more, hitems, rfl⟩ := first_column hfirst hcolumn
    obtain ⟨t, ht⟩ : ∃ t, sourceTable inner.source = .text t := by
      cases hs : inner.source with
      | table a => exact ⟨a, rfl⟩
      | join a b on => exact ⟨a, rfl⟩
      | tables a b more =>
        simp only [partsOf, hs] at hfound
        cases hfound
    simp only [partsOf, ht] at hfound h
    cases hfound
    exact ⟨x, inner, t, a, more, columns, shown, rfl, ht, hitems, hcolumns, hshown, h⟩

/-- The filter for a subquery tests what is looked up. -/
theorem subquery_stages {p : SelectOf Value} {c : Condition} {command : Value}
    (hc : p.condition = c.toValue) (hq : asksQuery c = true)
    (h : Command.subqueryCommand p = .ok command) : RunsStages command true := by
  obtain ⟨x, _, t, a, _, _, shown, -, -, -, -, -, h⟩ := subquery_pipeline hc hq h
  have hrest : ∀ s ∈ (if shown.isEmpty then [] else [Command.projectStage shown]),
      OtherStage s := by
    intro s hs
    split at hs
    · cases hs
    · obtain rfl := List.mem_singleton.mp hs
      exact project_other shown
  have hlookup : OtherStage (Command.lookupStage (.text t) (.text x.name) (.text a.name)) :=
    ⟨"$lookup", _, rfl, by decide⟩
  have hstages := @stages_around [Command.lookupStage (.text t) (.text x.name) (.text a.name)] _
    (some (doc [(t, doc [("$ne", .list [])])]))
    (fun s hs => by obtain rfl := List.mem_singleton.mp hs; exact hlookup.stage) hrest
  refine runs_stages h hstages ?_
  have hwaits := waits_around (some (doc [(t, doc [("$ne", .list [])])]))
    (waits_single (Command.lookupStage (.text t) (.text x.name) (.text a.name)))
    (fun s hs => (hrest s hs).no_filter)
  have htested : testedBy (some (doc [(t, doc [("$ne", .list [])])])) = [t] := by
    simp [testedBy, doc, testedFields, testedEntries]
  refine ⟨fun _ => rfl, fun _ => hwaits.mpr ⟨_, List.mem_singleton_self _, t, ?_, ?_⟩⟩
  · simp [htested]
  · simp [produces_lookup, within]

/-- The fields of the aggregates that a statement selects. -/
def selectedNames (q : Query) : List String :=
  (accumulatedFields (selectedItems q.items)).map (·.1)

theorem selected_not_id {q : Query} {x : String} (h : x ∈ selectedNames q) : x ≠ "_id" := by
  obtain ⟨f, hf, rfl⟩ := List.mem_map.mp h
  obtain ⟨a, -, rfl⟩ := List.mem_map.mp hf
  exact aggregate_name_not_id a

/-- The grouping stage of a statement produces the fields of its aggregates. -/
theorem produces_group (q : Query) (x : String) :
    produces (doc [("$group", .dict (groupEntries q.groupBy (selectedItems q.items)))]) x =
      decide (x ∈ selectedNames q) := by
  change (x != "_id" && Entries.has (groupEntries q.groupBy (selectedItems q.items)) (.text x)) = _
  rw [has_eq_get, groupEntries]
  by_cases hx : x ∈ selectedNames q
  · have hget := put_all_some [(.text "_id", groupKeyOf q.groupBy)] hx
    simp [hx, selected_not_id hx, hget]
  · have hother : ∀ f ∈ accumulatedFields (selectedItems q.items), f.1 ≠ x := by
      rintro f hf rfl
      exact hx (List.mem_map_of_mem hf)
    rw [get_put_all_other hother]
    by_cases hid : x = "_id"
    · subst hid
      simp [hx]
    · simp [hx, Entries.get?, Ne.symm hid]

theorem closing_stage {q : Query} {s : Value} (hs : s ∈ closingStages q) :
    ∃ op body, s = doc [(op, body)] ∧ op ≠ "$match" ∧ op ≠ "$group" := by
  simp only [closingStages, orderStages, limitStages, List.mem_append] at hs
  rcases hs with (hs | hs) | hs
  · split at hs
    · cases hs
    · obtain rfl := List.mem_singleton.mp hs
      exact ⟨"$sort", _, rfl, by decide, by decide⟩
  · obtain ⟨n, -, rfl⟩ : ∃ n, q.limit? = some n ∧ doc [("$limit", .int n)] = s := by simpa using hs
    exact ⟨"$limit", _, rfl, by decide, by decide⟩
  · obtain rfl := List.mem_singleton.mp hs
    exact ⟨"$project", _, rfl, by decide, by decide⟩

/-- A filter of groups waits if it tests an aggregate. -/
theorem group_stages {q : Query} {base? : Option Value} {command : Value}
    (h : Command.groupCommand base? (partsOf q) = .ok command) :
    RunsStages command
      ((clauseNames base? q.having?).any fun x => decide (x ∈ selectedNames q)) := by
  obtain ⟨where?, having?, hw, hh, hcommand⟩ := group_command_filters h
  have hgroup : OtherStage
      (doc [("$group", .dict (groupEntries q.groupBy (selectedItems q.items)))]) :=
    ⟨"$group", _, rfl, by decide⟩
  have hclosing : ∀ s ∈ closingStages q, OtherStage s := by
    intro s hs
    obtain ⟨op, body, rfl, hop, -⟩ := closing_stage hs
    exact ⟨op, body, rfl, hop⟩
  have hbefore : ∀ s ∈ (where?.map Command.matchStage).toList ++
      [doc [("$group", .dict (groupEntries q.groupBy (selectedItems q.items)))]], IsStage s := by
    refine @stages_around [] _ where? (by simp) ?_
    intro s hs
    obtain rfl := List.mem_singleton.mp hs
    exact hgroup
  refine runs_stages hcommand (stages_around hbefore hclosing) ?_
  have hfirst := @waits_around [] [doc [("$group",
    .dict (groupEntries q.groupBy (selectedItems q.items)))]] where? waits_nil
    (fun s hs => by obtain rfl := List.mem_singleton.mp hs; exact hgroup.no_filter)
  have hnone : ¬ Waits ((where?.map Command.matchStage).toList ++
      [doc [("$group", .dict (groupEntries q.groupBy (selectedItems q.items)))]]) := by
    intro hwaits
    obtain ⟨s, hs, -⟩ := hfirst.mp hwaits
    cases hs
  rw [groupStages, waits_around having? hnone (fun s hs => (hclosing s hs).no_filter),
    clause_filter_tests hh, List.any_eq_true]
  -- The filter before the grouping produces nothing.
  constructor
  · rintro ⟨s, hs, x, hx, hp⟩
    refine ⟨x, hx, ?_⟩
    rcases List.mem_append.mp hs with hs | hs
    · obtain ⟨f, -, rfl⟩ : ∃ f, where? = some f ∧ Command.matchStage f = s := by simpa using hs
      cases hp
    · obtain rfl := List.mem_singleton.mp hs
      rwa [produces_group] at hp
  · rintro ⟨x, hx, hp⟩
    exact ⟨_, List.mem_append_right _ (List.mem_singleton_self _), x, hx,
      (produces_group q x).trans hp⟩

/-- Whether a statement has a filter on what a stage of its pipeline produces: a subquery, a test
of a column of the joined table, or a test of a selected aggregate. -/
def dependsOnStage (q : Query) : Bool :=
  q.condition?.any asksQuery ||
  match q.source with
  | .table a =>
    (clauseNames (some (.text a)) q.having?).any fun x => decide (x ∈ selectedNames q)
  | .join a b _ => (clauseNames (some (.text a)) q.condition?).any (within b)
  | .tables a b more =>
    ((q.condition?.elim [] filterParts).flatMap
      (testedNames (some (textList (a :: b :: more))))).any (within b)

/-- Whether the rows of a statement are grouped. -/
def groupsRows (q : Query) : Bool :=
  !(selectedAggregates (selectedItems q.items)).isEmpty || !q.groupBy.isEmpty

theorem has_aggregate_of (l : SelectList) :
    Command.hasAggregate l.toValue = .ok !(selectedAggregates (selectedItems l)).isEmpty := by
  have hitems : ∀ xs : List SelectItem, (xs.map SelectItem.toValue).any Command.isAggregate =
      !(selectedAggregates xs).isEmpty := by
    intro xs
    induction xs with
    | nil => rfl
    | cons x xs ih =>
      rw [List.map_cons, List.any_cons, ih]
      rcases x with c | (_ | _) <;> rfl
  cases l with
  | all => rfl
  | items x xs => exact congrArg Except.ok (hitems (x :: xs))

/-- The kinds of commands: a subquery comes first, then the tables, then whether rows are
grouped. -/
theorem translate_of (q : Query) :
    Command.translate q.toValue =
      if q.condition?.any asksQuery then liftM (Command.subqueryCommand (partsOf q))
      else match q.source with
        | .join a _ _ => Command.clauseJoin (some (.text a)) (partsOf q)
        | .tables a b more =>
          Command.commaJoin (some (textList (a :: b :: more))) none (partsOf q)
        | .table a =>
          if groupsRows q then Command.groupCommand (some (.text a)) (partsOf q)
          else Command.findCommand (some (.text a)) (partsOf q) := by
  have hsub : ((partsOf q).condition.present && Command.hasSubquery (partsOf q).condition) =
      q.condition?.any asksQuery := by
    cases hc : q.condition? with
    | none => simp [partsOf, hc, optionalCondition, Value.present]
    | some c => simp [partsOf, hc, optionalCondition, has_subquery_condition, condition_present]
  have hgroup : (partsOf q).groupBy.present = !q.groupBy.isEmpty := by
    simp [partsOf, textList, Value.present]
  have hcolumns : (partsOf q).columns = q.items.toValue := rfl
  rw [statement_parts, Command.translate, Command.ofSelect, hsub]
  congr 1
  cases hs : q.source with
  | join a b on =>
    have hjoins : (partsOf q).joins.present = true := by
      simp [partsOf, hs, sourceJoins, Value.present]
    have htable : (partsOf q).table = .text a := by simp [partsOf, hs, sourceTable]
    simp only [hjoins, htable, ↓reduceIte]
  | tables a b more =>
    have hjoins : (partsOf q).joins.present = false := by
      simp [partsOf, hs, sourceJoins, Value.present]
    have htable : (partsOf q).table = textList (a :: b :: more) := by
      simp [partsOf, hs, sourceTable]
    have htables : Command.hasTables (textList (a :: b :: more)) = true := by
      simp [Command.hasTables, textList]
    simp only [hjoins, htable, htables, Bool.false_eq_true, ↓reduceIte]
  | table a =>
    have hjoins : (partsOf q).joins.present = false := by
      simp [partsOf, hs, sourceJoins, Value.present]
    have htable : (partsOf q).table = .text a := by simp [partsOf, hs, sourceTable]
    have htables : Command.hasTables (.text a) = false := rfl
    simp only [hjoins, htable, htables, hcolumns, has_aggregate_of, hgroup, command_lift, ok_bind,
      Bool.false_eq_true, ↓reduceIte, groupsRows]
    rfl

/-- The pipeline of a statement, with what is needed to simplify it. -/
theorem statement_stages {q : Query} {command stages : Value}
    (h : Command.translate q.toValue = .ok command)
    (hpipeline : command.entry "pipeline" = .ok stages) :
    RunsStages command (dependsOnStage q) := by
  rw [translate_of] at h
  split at h
  · rename_i hsub
    obtain ⟨c, hc, hasks⟩ := Option.any_eq_true _ _ |>.mp hsub
    have hcond : (partsOf q).condition = c.toValue := by simp [partsOf, hc, optionalCondition]
    rw [dependsOnStage, hsub, Bool.true_or]
    exact subquery_stages hcond hasks (command_lift_ok.mp h)
  · rename_i hsub
    rw [dependsOnStage, Bool.eq_false_iff.mpr hsub, Bool.false_or]
    split at h
    · rename_i a b on hs
      rw [hs]
      exact clause_join_stages hs h
    · rename_i a b more hs
      rw [hs]
      exact comma_join_stages hs h
    · rename_i a hs
      rw [hs]
      split at h
      · exact group_stages h
      · exact absurd hpipeline (find_no_pipeline h stages)

/-- The simplified pipeline of a statement keeps every filter behind the stages on which it depends
just if the statement has no filter on what a stage produces. -/
theorem filter_order_exact {schema command : Value} {stages : List Value} {sql : String}
    {line : Nat} {q : Query} (hparse : Sql.parse sql line = .ok q)
    (hcommand : Pipeline.command schema sql line = .ok command)
    (hstages : command.entry "pipeline" = .ok (.list stages)) :
    ∃ simple stages', Pipeline.simplify command = .ok simple ∧
      simple.entry "pipeline" = .ok (.list stages') ∧
      (KeepsDependencies stages stages' ↔ dependsOnStage q = false) := by
  obtain ⟨q', hq', -, htranslate⟩ := command_stages hcommand
  obtain rfl : q = q' := Except.ok.inj (hparse.symm.trans hq')
  obtain ⟨string, collection, stages₀, rfl, hname, hshown, hall, hwaits⟩ :=
    statement_stages htranslate hstages
  obtain rfl : stages₀ = stages := by
    cases hstages
    rfl
  obtain ⟨string', hsimple⟩ := simplify_pipeline string hall hname hshown
  refine ⟨pipelineDocument string' collection (withFiltersFirst stages₀),
    withFiltersFirst stages₀, ?_, rfl, ?_⟩
  · rw [Pipeline.simplify, hsimple]
    rfl
  · rw [filters_first_keeps, hwaits, Bool.not_eq_true]

def shopSchema : Value :=
  doc [("users", doc [("id", .text "int"), ("age", .text "int"), ("city", .text "string")]),
    ("orders", doc [("user_id", .text "int"), ("amount", .text "int")])]

/-- The amounts of orders with a test of the users, which are not looked up. -/
def adultOrders : Query :=
  ⟨.items (.column ⟨some "orders", "amount"⟩) [], .join "users" "orders"
      (.compare ⟨some "users", "id"⟩ .eq (.column ⟨some "orders", "user_id"⟩)),
    some (.compare ⟨some "users", "age"⟩ .gt (.literal (.number 18))), [], none, [], none⟩

def adultOrdersText : String :=
  "SELECT orders.amount FROM users JOIN orders ON users.id = orders.user_id WHERE users.age > 18;"

theorem filter_order_adults :
    Sql.parse adultOrdersText 1 = .ok adultOrders ∧ ∃ command stages simple stages',
      Pipeline.command shopSchema adultOrdersText 1 = .ok command ∧
      command.entry "pipeline" = .ok (.list stages) ∧ Pipeline.simplify command = .ok simple ∧
      simple.entry "pipeline" = .ok (.list stages') ∧ KeepsDependencies stages stages' := by
  have hparse : Sql.parse adultOrdersText 1 = .ok adultOrders := parse_spelled ⟨rfl, rfl⟩ rfl
  obtain ⟨tree, command, stages, htree, htranslate, hstages⟩ : ∃ tree command stages,
      Pipeline.check shopSchema adultOrders.toValue = .ok tree ∧
        Pipeline.translate tree = .ok command ∧
        command.entry "pipeline" = .ok (.list stages) := ⟨_, _, _, rfl, rfl, rfl⟩
  have hcommand := command_of_stages hparse htree htranslate
  obtain ⟨simple, stages', hsimple, hstages', hiff⟩ := filter_order_exact hparse hcommand hstages
  exact ⟨hparse, command, stages, simple, stages', hcommand, hstages, hsimple, hstages',
    hiff.mpr rfl⟩

/-- The cities of several users. -/
def largeCities : Query :=
  ⟨.items (.column ⟨none, "city"⟩) [.aggregate .countAll], .table "users", none, ["city"],
    some (.aggregate .countAll .gt (.number 1)), [], none⟩

/-- A test of a count is put before the stage that counts. -/
theorem filter_order_lost :
    ¬ ∀ (schema : Value) (sql : String) (line : Nat) (command simple : Value)
      (stages stages' : List Value), Schema.check schema = .ok () →
      Pipeline.command schema sql line = .ok command →
      command.entry "pipeline" = .ok (.list stages) → Pipeline.simplify command = .ok simple →
      simple.entry "pipeline" = .ok (.list stages') → KeepsDependencies stages stages' := by
  intro hall
  have hparse : Sql.parse
      "SELECT city, COUNT(*) FROM users GROUP BY city HAVING COUNT(*) > 1;" 1 =
        .ok largeCities := parse_spelled ⟨rfl, rfl⟩ rfl
  let group := doc [("$group", doc [("_id", .text "$city"), ("count", doc [("$sum", .int 1)])])]
  let test := Command.matchStage (doc [("count", doc [("$gt", .int 1)])])
  let shown := doc [("$project", doc [("city", .text "$_id"), ("_id", .int 0), ("count", .int 1)])]
  obtain ⟨tree, command, simple, htree, htranslate, hstages, hsimple, hstages'⟩ :
      ∃ tree command simple, Pipeline.check shopSchema largeCities.toValue = .ok tree ∧
        Pipeline.translate tree = .ok command ∧
        command.entry "pipeline" = .ok (.list [group, test, shown]) ∧
        Pipeline.simplify command = .ok simple ∧
        simple.entry "pipeline" = .ok (.list [test, group, shown]) :=
    ⟨_, _, _, rfl, rfl, rfl, rfl, rfl⟩
  have hkeeps : KeepsDependencies [group, test, shown] (withFiltersFirst [group, test, shown]) :=
    hall shopSchema _ 1 command simple _ _ rfl (command_of_stages hparse htree htranslate) hstages
      hsimple hstages'
  have hdepends : Depends test group :=
    ⟨_, rfl, "count", by simp [doc, testedFields, testedEntries], rfl⟩
  exact (filters_first_keeps _).mp hkeeps ⟨test, group, hdepends, by simp⟩

end DocQuery.Proofs
