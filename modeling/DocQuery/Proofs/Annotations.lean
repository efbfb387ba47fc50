import DocQuery.Proofs.Notes

namespace DocQuery.Proofs

open Sql
open Value (doc)

mutual
/-- A tree without the notes that checks have left on the statements in it. -/
def withoutNotes : Value → Value
  | .list xs => .list (itemsWithoutNotes xs)
  | .tuple xs => .tuple (itemsWithoutNotes xs)
  | .dict es => .dict (entriesWithoutNotes es)
  | .comparison i o v => .comparison (withoutNotes i) (withoutNotes o) (withoutNotes v)
  | .logical l o r => .logical (withoutNotes l) (withoutNotes o) (withoutNotes r)
  | .orderItem c d => .orderItem (withoutNotes c) d
  | .aggregate f c => .aggregate f (withoutNotes c)
  | .select p => .select (partsWithoutNotes p)
  | v => v

def itemsWithoutNotes : List Value → List Value
  | [] => []
  | x :: xs => withoutNotes x :: itemsWithoutNotes xs

def entriesWithoutNotes : List (Value × Value) → List (Value × Value)
  | [] => []
  | (k, v) :: es => (withoutNotes k, withoutNotes v) :: entriesWithoutNotes es

def partsWithoutNotes : SelectOf Value → SelectOf Value
  | ⟨columns, table, joins, condition, groupBy, having, orderBy, limit, offset, _, _, _⟩ =>
    { columns := withoutNotes columns
      table := withoutNotes table
      joins := withoutNotes joins
      condition := withoutNotes condition
      groupBy := withoutNotes groupBy
      having := withoutNotes having
      orderBy := withoutNotes orderBy
      limit := withoutNotes limit
      offset := withoutNotes offset
      join? := none
      filter? := none
      resolved? := none }
end

theorem items_without_notes {xs : List Value} (h : ∀ x ∈ xs, withoutNotes x = x) :
    itemsWithoutNotes xs = xs := by
  induction xs with
  | nil => rfl
  | cons x xs ih =>
    obtain ⟨hx, hrest⟩ := List.forall_mem_cons.mp h
    rw [itemsWithoutNotes, hx, ih hrest]

theorem list_without_notes {α : Type} {f : α → Value} (h : ∀ a, withoutNotes (f a) = f a)
    (xs : List α) : withoutNotes (.list (xs.map f)) = .list (xs.map f) := by
  rw [withoutNotes, items_without_notes (List.forall_mem_map.mpr fun x _ => h x)]

@[simp] theorem text_without_notes (s : String) : withoutNotes (.text s) = .text s := rfl

@[simp] theorem column_without_notes (c : ColumnRef) : withoutNotes c.toValue = c.toValue := by
  obtain ⟨table?, name⟩ := c
  cases table? <;> rfl

@[simp] theorem literal_without_notes (l : Sql.Literal) : withoutNotes l.toValue = l.toValue := by
  cases l <;> rfl

@[simp] theorem aggregate_without_notes (a : Aggregate) : withoutNotes a.toValue = a.toValue := by
  cases a <;> rfl

@[simp] theorem operand_without_notes (x : Operand) : withoutNotes x.toValue = x.toValue := by
  cases x with
  | column c => exact column_without_notes c
  | literal l => exact literal_without_notes l

theorem select_list_without_notes (items : SelectList) :
    withoutNotes items.toValue = items.toValue := by
  cases items with
  | all => rfl
  | items x xs =>
    refine list_without_notes (fun y => ?_) (x :: xs)
    cases y with
    | column c => exact column_without_notes c
    | aggregate a => exact aggregate_without_notes a

theorem names_without_notes (names : List String) :
    withoutNotes (textList names) = textList names :=
  list_without_notes text_without_notes names

theorem table_without_notes (s : Source Condition) :
    withoutNotes (sourceTable s) = sourceTable s := by
  cases s with
  | table a => rfl
  | join a b on => rfl
  | tables a b more => exact names_without_notes (a :: b :: more)

theorem limit_without_notes (n? : Option Nat) :
    withoutNotes (optionalNumber n?) = optionalNumber n? := by
  cases n? <;> rfl

mutual
/-- All trees of a condition are its own tree once the notes are taken off. -/
theorem condition_without_notes {c : Condition} {v : Value} (h : ConditionTree c v) :
    withoutNotes v = c.toValue := by
  match h with
  | .compare => simp [Condition.toValue, withoutNotes, Relation.toValue]
  | .aggregate => simp [Condition.toValue, withoutNotes, Relation.toValue]
  | .between => simp [Condition.toValue, withoutNotes, itemsWithoutNotes]
  | .inList =>
    simp only [Condition.toValue, withoutNotes, column_without_notes]
    rw [items_without_notes (List.forall_mem_map.mpr fun l _ => literal_without_notes l)]
  | .inQuery hq =>
    rw [Condition.toValue, withoutNotes, column_without_notes, text_without_notes,
      statement_without_notes hq]
    rfl
  | .connect hl hr =>
    rw [Condition.toValue, withoutNotes, condition_without_notes hl, condition_without_notes hr]
    rfl

theorem clause_without_notes {c? : Option Condition} {v : Value} (h : ClauseTree c? v) :
    withoutNotes v = optionalCondition c? := by
  match h with
  | .none => rfl
  | .some hc => exact condition_without_notes hc

theorem join_without_notes {s : Source Condition} {v : Value} (h : JoinTree s v) :
    withoutNotes v = sourceJoins s := by
  match h with
  | .table => rfl
  | .tables => rfl
  | .join hc =>
    simp [sourceJoins, doc, withoutNotes, itemsWithoutNotes, entriesWithoutNotes,
      condition_without_notes hc]

/-- All trees of a statement are its own tree once the notes are taken off. -/
theorem statement_without_notes {q : Query} {p : SelectOf Value} (h : StatementTree q p) :
    withoutNotes (.select p) = q.toValue := by
  match h with
  | .mk columns table joins condition groupBy having orderBy limit offset =>
    rw [statement_parts, withoutNotes, partsWithoutNotes, partsOf, columns, table, groupBy, orderBy,
      limit, offset, join_without_notes joins, clause_without_notes condition,
      clause_without_notes having, select_list_without_notes, table_without_notes,
      names_without_notes, list_without_notes fun _ => rfl, limit_without_notes]
    rfl
end

/-- Checking only annotates: without the notes, what it leaves of a statement is the statement as it
was, with all of its subqueries, whether it is accepted or not. The notes change no command. -/
theorem check_only_annotates (schema : Value) (q : Query) :
    withoutNotes (Check.check schema q.toValue).tree = q.toValue ∧
      Command.translate (Check.check schema q.toValue).tree = Command.translate q.toValue := by
  obtain ⟨p, hp, hq⟩ := check_leaves_tree schema q
  obtain ⟨p', hp', hq'⟩ := statement_tree q
  rw [hp]
  refine ⟨statement_without_notes hq, ?_⟩
  rw [Statement.toValue, hp']
  exact translate_trees hq hq' none

end DocQuery.Proofs
