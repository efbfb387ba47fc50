import DocQuery.Proofs.Scope

namespace DocQuery.Proofs

open Sql
open Value (doc)

theorem lower_function (f : Func) : Text.lower f.keyword.spelling = functionName f := by
  cases f <;> rfl

/-- The field of an aggregate of a named column. -/
theorem aggregate_name_call {f : Func} {c : String} (hc : IsName c) :
    aggregateName (.call f c) = functionName f ++ "_" ++ c := by
  simp [aggregateName, hc.not_star, lower_function]

/-- The alias under which an aggregate is ordered by is its field. -/
theorem alias_name {a : Aggregate} (h : NamedItem (.aggregate a)) : a.alias = aggregateName a := by
  cases a with
  | countAll => rfl
  | call f c =>
    rw [aggregate_name_call (h f c rfl), call_alias]

/-- Different aggregates have different fields. -/
theorem aggregate_name_injective {a b : Aggregate} (ha : NamedItem (.aggregate a))
    (hb : NamedItem (.aggregate b)) (h : aggregateName a = aggregateName b) : a = b := by
  cases a with
  | countAll =>
    cases b with
    | countAll => rfl
    | call g d =>
      rw [aggregate_name_call (hb g d rfl)] at h
      have hchars := congrArg String.toList h
      cases g <;> simp [aggregateName, functionName] at hchars
  | call f c =>
    rw [aggregate_name_call (ha f c rfl)] at h
    cases b with
    | countAll =>
      have hchars := congrArg String.toList h
      cases f <;> simp [aggregateName, functionName] at hchars
    | call g d =>
      rw [aggregate_name_call (hb g d rfl)] at h
      have hchars := congrArg String.toList h
      cases f <;> cases g <;> simp [functionName] at hchars ⊢ <;> exact String.toList_injective hchars

theorem aggregate_name_no_dot {a : Aggregate} (h : NamedItem (.aggregate a)) :
    '.' ∉ (aggregateName a).toList := by
  cases a with
  | countAll => decide
  | call f c =>
    have hc := (h f c rfl).no_dot
    rw [aggregate_name_call (h f c rfl)]
    cases f <;> simp [functionName, hc]

theorem aggregate_name_not_id (a : Aggregate) : aggregateName a ≠ "_id" := by
  intro h
  have hchars := congrArg String.toList h
  unfold aggregateName at hchars
  split at hchars
  · revert hchars
    decide
  · split at hchars
    · revert hchars
      decide
    · rename_i f c _
      cases f <;> simp [lower_function, functionName] at hchars

/-- What is accumulated for an aggregate. -/
def accumulated : Aggregate → Value
  | .countAll => doc [("$sum", .int 1)]
  | .call .count c =>
    if c = "*" then doc [("$sum", .int 1)]
    else doc [("$sum", doc [("$cond",
      .list [doc [("$ne", .list [.text ("$" ++ c), .null])], .int 1, .int 0])])]
  | .call .min c => doc [("$min", .text ("$" ++ c))]
  | .call .max c => doc [("$max", .text ("$" ++ c))]
  | .call .avg c => doc [("$avg", .text ("$" ++ c))]
  | .call .sum c => doc [("$sum", .text ("$" ++ c))]

theorem accumulation_of {a : Aggregate} {f : String} {c : Value} (h : a.toValue = .aggregate f c) :
    Command.accumulation? f c = .ok (some (accumulated a)) ∧
      Command.aggregateField f c = .ok (aggregateName a) := by
  cases a with
  | countAll =>
    cases h
    exact ⟨rfl, rfl⟩
  | call g name =>
    cases h
    refine ⟨?_, ?_⟩
    · cases g with
      | count =>
        by_cases hc : name = "*" <;>
          simp [Command.accumulation?, Func.keyword, Keyword.spelling, accumulated, hc, Command.one]
      | _ => rfl
    · simp only [Command.aggregateField, aggregateName, same_text]
      split <;> rfl

/-- The aggregates among selected items. -/
def selectedAggregates (items : List SelectItem) : List Aggregate :=
  items.filterMap (fun
    | .aggregate a => some a
    | .column _ => none)

theorem mem_selected_aggregates {a : Aggregate} {items : List SelectItem} :
    a ∈ selectedAggregates items ↔ .aggregate a ∈ items := by
  constructor
  · intro ha
    obtain ⟨x, hx, hxa⟩ := List.mem_filterMap.mp ha
    cases x with
    | column c => cases hxa
    | aggregate b =>
      cases hxa
      exact hx
  · intro ha
    exact List.mem_filterMap.mpr ⟨.aggregate a, ha, rfl⟩

/-- The fields of the aggregates among selected items, each with what it accumulates. -/
def accumulatedFields (items : List SelectItem) : List (String × Value) :=
  (selectedAggregates items).map (fun a => (aggregateName a, accumulated a))

theorem accumulations_of (items : List SelectItem) :
    Command.accumulations (items.map SelectItem.toValue) = .ok (accumulatedFields items) := by
  induction items with
  | nil => rfl
  | cons x items ih =>
    cases x with
    | column c =>
      rw [List.map_cons, SelectItem.toValue, ColumnRef.toValue, doc, Command.accumulations, ih]
      · rfl
      · simp
    | aggregate a =>
      obtain ⟨f, c, ha⟩ : ∃ f c, a.toValue = .aggregate f c := by cases a <;> exact ⟨_, _, rfl⟩
      obtain ⟨hacc, hname⟩ := accumulation_of ha
      rw [List.map_cons, SelectItem.toValue, ha, Command.accumulations, hacc]
      simp only [ok_bind, hname, ih, pure_ok]
      rfl

theorem accumulations_of_list (l : SelectList) :
    (l.toValue.items >>= Command.accumulations) = .ok (accumulatedFields (selectedItems l)) := by
  cases l with
  | all => rfl
  | items x xs => exact accumulations_of (x :: xs)

/-- What groups are told apart by: a column, or a document of several columns. -/
def groupKeyOf : List String → Value
  | [] => .null
  | [c] => .text ("$" ++ c)
  | cs => .dict (putAll [] (cs.map fun c => (c, .text ("$" ++ c))))

theorem insert_all {ε α : Type} (name : α → String) (value : α → Value) (xs : List α)
    (g : Entries → α → Except ε Entries)
    (hg : ∀ es x, g es x = .ok (Entries.put es (.text (name x)) (value x))) (es : Entries) :
    xs.foldlM g es = .ok (putAll es (xs.map fun x => (name x, value x))) := by
  induction xs generalizing es with
  | nil => rfl
  | cons x xs ih =>
    rw [List.foldlM_cons, hg, ok_bind, ih]
    rfl

theorem insert_texts (value : String → Value) (cs : List String)
    (g : Entries → Value → Except Fault Entries)
    (hg : ∀ es c, g es (.text c) = .ok (Entries.put es (.text c) (value c))) (es : Entries) :
    (cs.map Value.text).foldlM g es = .ok (putAll es (cs.map fun c => (c, value c))) := by
  rw [List.foldlM_map]
  exact insert_all id value cs _ hg es

theorem items_text_list (cs : List String) :
    (textList cs).items = .ok (cs.map Value.text) := rfl

theorem group_key_of (cs : List String) :
    Command.groupKey (textList cs) = .ok (groupKeyOf cs) := by
  match cs with
  | [] => rfl
  | [c] => rfl
  | c :: d :: cs =>
    have hsize : (textList (c :: d :: cs)).size = .ok (cs.length + 2) := by
      simp [textList, Value.size]
    have hall := insert_texts (fun c => .text ("$" ++ c)) (c :: d :: cs)
      (fun es c => do Value.insert es c (← Command.pathOf c)) (fun _ _ => rfl) []
    have hpresent : (textList (c :: d :: cs)).present = true := rfl
    simp only [Command.groupKey, hpresent, hsize, ok_bind]
    simp only [Bool.not_true, Bool.false_eq_true, ↓reduceIte]
    rw [if_neg (by simp)]
    simp only [items_text_list, ok_bind, hall]
    rfl

/-- The entries of the grouping stage. -/
def groupEntries (cs : List String) (items : List SelectItem) : Entries :=
  putAll [(.text "_id", groupKeyOf cs)] (accumulatedFields items)

theorem group_stage_of (cs : List String) (l : SelectList) :
    Command.groupStage (textList cs) l.toValue =
      .ok (doc [("$group", .dict (groupEntries cs (selectedItems l)))]) := by
  have hfields := accumulations_of_list l
  rw [bind_ok] at hfields
  obtain ⟨vs, hvs, hacc⟩ := hfields
  simp only [Command.groupStage, group_key_of, ok_bind, hvs, hacc]
  rfl

/-- The field by which groups are ordered. -/
def orderName (cs : List String) (c : String) : String :=
  if c ∈ cs then (if cs.length = 1 then "_id" else "_id." ++ c) else c

theorem order_field_of (cs : List String) (c : String) :
    Command.orderField (textList cs) (.text c) = .ok (.text (orderName cs c)) := by
  have hsize : (textList cs).size = .ok cs.length := by simp [textList, Value.size]
  have hpresent : (textList cs).present = !cs.isEmpty := by simp [textList, Value.present]
  cases cs with
  | nil => rfl
  | cons d cs =>
    simp only [Command.orderField, hpresent, text_in_list, hsize, ok_bind, List.isEmpty_cons,
      Bool.not_false, ↓reduceIte, orderName]
    by_cases hc : c ∈ d :: cs
    · simp only [hc, decide_true, ↓reduceIte]
      by_cases hl : cs = [] <;> simp [hl]
    · simp [hc]

/-- One for an ascending order, minus one for a descending one. -/
def directionSign : Direction → Value
  | .asc => .int 1
  | .desc => .int (-1)

theorem direction_of (d : Direction) :
    Command.directionOf d.keyword.spelling = directionSign d := by
  have hasc : Text.upper "ASC" = "ASC" := rfl
  have hdesc : Text.upper "DESC" = "DESC" := rfl
  cases d with
  | asc => simp [Direction.keyword, Keyword.spelling, Command.directionOf, hasc, directionSign]
  | desc => simp [Direction.keyword, Keyword.spelling, Command.directionOf, hdesc, directionSign]

def orderEntries (cs : List String) (os : List OrderItem) : Entries :=
  putAll [] (os.map fun o => (orderName cs o.column, directionSign o.direction))

theorem sort_stage_of (cs : List String) (os : List OrderItem) :
    Command.sortStage (textList cs) (.list (os.map OrderItem.toValue)) =
      .ok (doc [("$sort", .dict (orderEntries cs os))]) := by
  have hput : ∀ es (o : OrderItem), Command.putGroupOrder (textList cs) es o.toValue =
      .ok (Entries.put es (.text (orderName cs o.column)) (directionSign o.direction)) := by
    intro es o
    simp only [OrderItem.toValue, Command.putGroupOrder, order_field_of, ok_bind, direction_of]
    rfl
  simp only [Command.sortStage, Value.items, ok_bind, List.foldlM_map]
  rw [insert_all (fun o => orderName cs o.column) (fun o => directionSign o.direction) os _ hput]
  rfl

/-- Where a grouping column is found in a group. -/
def outputPath (cs : List String) (c : String) : String :=
  if cs.length = 1 then "$_id" else "$_id." ++ c

def outputEntries (cs : List String) (items : List SelectItem) : Entries :=
  putAll (Entries.put (putAll [] (cs.map fun c => (c, .text (outputPath cs c)))) (.text "_id")
    (.int 0)) ((accumulatedFields items).map fun f => (f.1, .int 1))

theorem output_stage_of (cs : List String) (l : SelectList) :
    Command.outputStage (textList cs) l.toValue =
      .ok (Command.projectStage (outputEntries cs (selectedItems l))) := by
  have hfields := accumulations_of_list l
  rw [bind_ok] at hfields
  obtain ⟨vs, hvs, hacc⟩ := hfields
  have hfold : ∀ es : Entries, (accumulatedFields (selectedItems l)).foldl
      (fun es (f : String × Value) => Entries.put es (.text f.1) Command.one) es =
        putAll es ((accumulatedFields (selectedItems l)).map fun f => (f.1, .int 1)) := by
    intro es
    rw [putAll, List.foldl_map]
    rfl
  cases cs with
  | nil =>
    simp only [Command.outputStage, textList, Value.present, hvs, hacc, hfold, ok_bind]
    rfl
  | cons c cs =>
    cases cs with
    | nil =>
      simp only [Command.outputStage, hvs, hacc, hfold, ok_bind]
      rfl
    | cons d cs =>
      have hsize : (textList (c :: d :: cs)).size = .ok (cs.length + 2) := by
        simp [textList, Value.size]
      have hpresent : (textList (c :: d :: cs)).present = true := rfl
      have hall := insert_texts (fun c => .text ("$_id." ++ c)) (c :: d :: cs)
        (fun es c => do Value.insert es c (.text ("$_id." ++ (← c.str)))) (fun _ _ => rfl) []
      have hpath : ∀ e, outputPath (c :: d :: cs) e = "$_id." ++ e := by simp [outputPath]
      simp only [Command.outputStage, hpresent, hsize, ok_bind]
      simp only [Bool.not_true, Bool.false_eq_true, ↓reduceIte]
      rw [if_neg (by simp)]
      simp only [items_text_list, ok_bind, hall, hvs, hacc, hfold, outputEntries, hpath, pure_ok]

theorem clause_present (c : Condition) : (optionalCondition (some c)).present = true :=
  condition_present c

def orderStages (cs : List String) (os : List OrderItem) : List Value :=
  if os = [] then [] else [doc [("$sort", .dict (orderEntries cs os))]]

def limitStages (limit? : Option Nat) : List Value :=
  (limit?.map fun (n : Nat) => doc [("$limit", .int n)]).toList

/-- The stages after the tests of groups. -/
def closingStages (q : Query) : List Value :=
  orderStages q.groupBy q.orderBy ++ limitStages q.limit? ++
    [Command.projectStage (outputEntries q.groupBy (selectedItems q.items))]

/-- The stages of a pipeline that groups documents. -/
def groupStages (q : Query) (where? having? : Option Value) : List Value :=
  (where?.map Command.matchStage).toList ++
    [doc [("$group", .dict (groupEntries q.groupBy (selectedItems q.items)))]] ++
    (having?.map Command.matchStage).toList ++ closingStages q

theorem order_present (os : List OrderItem) :
    (Value.list (os.map OrderItem.toValue)).present = !os.isEmpty := by
  simp [Value.present]

/-- If its conditions have filters, a statement has the stages for them. -/
theorem group_command_of {base? : Option Value} {q : Query} {where? having? : Option Value}
    (hw : ClauseFilter base? q.condition? where?) (hh : ClauseFilter base? q.having? having?) :
    Command.groupCommand base? (partsOf q) =
      liftM (Command.pipelineCommand (sourceTable q.source) (groupStages q where? having?)) := by
  obtain ⟨items, source, condition?, groupBy, _, orderBy, limit?⟩ := q
  have hnone : (optionalCondition none).present = false := rfl
  have hsome (c : Condition) : optionalCondition (some c) = c.toValue := rfl
  simp only [Command.groupCommand, partsOf, group_stage_of, sort_stage_of, output_stage_of,
    order_present, command_lift, ok_bind, groupStages, closingStages]
  cases hw with
  | none =>
    cases hh with
    | none => cases orderBy <;> cases limit? <;> simp [hnone, orderStages] <;> rfl
    | some hf =>
      cases orderBy <;> cases limit? <;>
        simp [hnone, hsome, condition_present, hf, orderStages] <;> rfl
  | some hf =>
    cases hh with
    | none =>
      cases orderBy <;> cases limit? <;>
        simp [hnone, hsome, condition_present, hf, orderStages] <;> rfl
    | some hf' =>
      cases orderBy <;> cases limit? <;>
        simp [hsome, condition_present, hf, hf', orderStages] <;> rfl

/-- A statement that has a command has filters for its conditions. -/
theorem group_command_filters {base? : Option Value} {q : Query} {command : Value}
    (h : Command.groupCommand base? (partsOf q) = .ok command) :
    ∃ where? having?, ClauseFilter base? q.condition? where? ∧ ClauseFilter base? q.having? having? ∧
      Command.pipelineCommand (sourceTable q.source) (groupStages q where? having?) =
        .ok command := by
  obtain ⟨where?, having?, hw, hh⟩ : ∃ where? having?, ClauseFilter base? q.condition? where? ∧
      ClauseFilter base? q.having? having? := by
    obtain ⟨items, source, condition?, groupBy, having?, orderBy, limit?⟩ := q
    have hnone : (optionalCondition none).present = false := rfl
    simp only [Command.groupCommand, partsOf, group_stage_of, command_lift, ok_bind] at h
    cases condition? with
    | none =>
      cases having? with
      | none => exact ⟨_, _, .none, .none⟩
      | some d =>
        simp only [hnone, Bool.false_eq_true, clause_present, ↓reduceIte, pure_ok, ok_bind,
          bind_ok] at h
        obtain ⟨f, hf, -⟩ := h
        exact ⟨_, _, .none, .some hf⟩
    | some c =>
      simp only [clause_present, ↓reduceIte, bind_ok] at h
      obtain ⟨f, hf, h⟩ := h
      cases having? with
      | none => exact ⟨_, _, .some hf, .none⟩
      | some d =>
        simp only [clause_present, ↓reduceIte, pure_ok, ok_bind, bind_ok] at h
        obtain ⟨_, -, g, hg, -⟩ := h
        exact ⟨_, _, .some hf, .some hg⟩
  rw [group_command_of hw hh] at h
  exact ⟨where?, having?, hw, hh, command_lift_ok.mp h⟩

section Hereditary
variable {Q : Value → Prop} (h : Hereditary Q)
include h

theorem Hereditary.group_key (cs : List String) : Q (groupKeyOf cs) := by
  cases cs with
  | nil => exact h.null
  | cons c cs =>
    cases cs with
    | nil => exact h.text _
    | cons d cs =>
      refine h.put_all fun f hf => ?_
      obtain ⟨b, -, rfl⟩ := List.mem_map.mp hf
      exact h.text _

theorem Hereditary.accumulation (a : Aggregate) : Q (accumulated a) := by
  have hone : Q (.int 1) := h.small 1 (by decide)
  cases a with
  | countAll => exact h.entry hone
  | call f c =>
    cases f with
    | count =>
      rw [accumulated]
      split
      · exact h.entry hone
      · have hpath : Q (.list [.text ("$" ++ c), .null]) := h.list (by simp [h.text, h.null])
        have hzero : Q (.int 0) := h.small 0 (by decide)
        exact h.entry (h.entry (h.list (by simp [h.entry hpath, hone, hzero])))
    | _ => exact h.entry (h.text _)

theorem Hereditary.direction (d : Direction) : Q (directionSign d) := by
  cases d with
  | asc => exact h.small 1 (by decide)
  | desc => exact h.small (-1) (by decide)

/-- All stages of a grouped statement have a property if its filters and its limit have it. -/
theorem Hereditary.group_stages (q : Query) {where? having? : Option Value}
    (hlimit : ∀ n : Nat, q.limit? = some n → Q (.int n))
    (hw : ∀ s ∈ (where?.map Command.matchStage).toList, Q s)
    (hh : ∀ s ∈ (having?.map Command.matchStage).toList, Q s) :
    ∀ s ∈ groupStages q where? having?, Q s := by
  simp only [groupStages, closingStages, orderStages, limitStages, List.mem_append]
  rintro s (((hs | hs) | hs) | (hs | hs) | hs)
  · exact hw s hs
  · obtain rfl := List.mem_singleton.mp hs
    refine h.entry (h.dict ((EntriesOf.nil.put (h.group_key q.groupBy)).put_all fun f hf => ?_))
    obtain ⟨a, -, rfl⟩ := List.mem_map.mp hf
    exact h.accumulation a
  · exact hh s hs
  · split at hs
    · cases hs
    · obtain rfl := List.mem_singleton.mp hs
      refine h.entry (h.put_all fun f hf => ?_)
      obtain ⟨o, -, rfl⟩ := List.mem_map.mp hf
      exact h.direction o.direction
  · obtain ⟨n, hn, rfl⟩ : ∃ n, q.limit? = some n ∧ doc [("$limit", .int n)] = s := by
      simpa using hs
    exact h.entry (hlimit n hn)
  · obtain rfl := List.mem_singleton.mp hs
    have hpaths : EntriesOf Q (putAll [] (q.groupBy.map fun c =>
        (c, .text (outputPath q.groupBy c)))) := by
      refine EntriesOf.nil.put_all fun f hf => ?_
      obtain ⟨c, -, rfl⟩ := List.mem_map.mp hf
      exact h.text _
    refine h.entry (h.dict ((hpaths.put (h.small 0 (by decide))).put_all fun f hf => ?_))
    obtain ⟨a, -, rfl⟩ := List.mem_map.mp hf
    exact h.small 1 (by decide)

end Hereditary

/-- All stages of a grouped statement have texts if its filters have. -/
theorem group_stages_texts (q : Query) {where? having? : Option Value}
    (hw : ∀ s ∈ (where?.map Command.matchStage).toList, Succeeds s.literal)
    (hh : ∀ s ∈ (having?.map Command.matchStage).toList, Succeeds s.literal) :
    ∀ s ∈ groupStages q where? having?, Succeeds s.literal :=
  literal_hereditary.group_stages q (fun _ _ => .ok _) hw hh

theorem group_stages_shown (q : Query) (where? having? : Option Selector) :
    ∀ s ∈ groupStages q (where?.map Selector.toValue) (having?.map Selector.toValue),
      Succeeds s.literal :=
  group_stages_texts q (literal_filter_succeeds where?) (literal_filter_succeeds having?)

end DocQuery.Proofs
