import DocQuery.Proofs.Conditions
import DocQuery.Proofs.Members
import DocQuery.Proofs.Parsed

namespace DocQuery.Proofs

open Sql
open Value (doc)

def scalarOf : Sql.Literal → Scalar
  | .number n => .int n
  | .text s => .text s

theorem literal_value (l : Sql.Literal) : l.toValue = (scalarOf l).toValue := by
  cases l <;> rfl

theorem literal_values (ls : List Sql.Literal) :
    ls.map Literal.toValue = (ls.map scalarOf).map Scalar.toValue := by
  rw [List.map_map]
  exact List.map_congr_left (fun l _ => literal_value l)

/-- The field of a column: below its table, unless this is the base table. -/
def columnField (base? : Option Value) (c : ColumnRef) : String :=
  match c.table? with
  | some t => if t != "" && !base?.any (Value.text t).same then t ++ "." ++ c.name else c.name
  | none => c.name

/-- The field of an aggregate. -/
def aggregateName : Aggregate → String
  | .countAll => "count"
  | .call f c =>
    if f.keyword.spelling == "COUNT" && c == "*" then "count"
    else Text.lower f.keyword.spelling ++ "_" ++ c

/-- The field that a comparison with literals is about, and the test of it. -/
def literalTest? (base? : Option Value) : Condition → Option (String × FieldTest)
  | .compare c r (.literal l) => some (columnField base? c, .compare r (scalarOf l))
  | .aggregate a r l => some (aggregateName a, .compare r (scalarOf l))
  | .between c low high => some (c, .between (scalarOf low) (scalarOf high))
  | .inList c l ls => some (columnField base? c, .among ((l :: ls).map scalarOf))
  | _ => none

/-- Whether all comparisons of a condition are with literals. -/
def isLiteral : Condition → Bool
  | .connect l _ r => isLiteral l && isLiteral r
  | .compare _ _ (.literal _) | .aggregate .. | .between .. | .inList .. => true
  | .compare _ _ (.column _) | .inQuery .. => false

/-- The tests that a condition makes, from left to right. -/
def fieldTests (base? : Option Value) : Condition → List (String × FieldTest)
  | .connect l _ r => fieldTests base? l ++ fieldTests base? r
  | c => (literalTest? base? c).toList

/-- A field whose name is not taken for an operator. -/
def Plain (name : String) : Prop := name.toList.head? ≠ some '$'

instance (name : String) : Decidable (Plain name) :=
  inferInstanceAs (Decidable (name.toList.head? ≠ some '$'))

theorem plain_not_or {name : String} (h : Plain name) : name ≠ "$or" := by
  rintro rfl
  exact h rfl

theorem plain_not_and {name : String} (h : Plain name) : name ≠ "$and" := by
  rintro rfl
  exact h rfl

/-- A filter that is joined to the left. -/
inductive Chain : Selector → Prop where
  | field (hn : Plain name) : Chain (.field name t)
  | both (hl : Chain l) (hn : Plain name) : Chain (.both l (.field name t))
  | either (hl : Chain l) (hn : Plain name) : Chain (.either l (.field name t))

theorem IsName.plain {s : String} (h : IsName s) : Plain s := by
  obtain ⟨c, cs, hs, hc, -⟩ := h
  intro hd
  rw [hs] at hd
  cases hd
  exact absurd hc (by decide)

theorem plain_append {s t : String} (h : IsName s) : Plain (s ++ t) := by
  have hp := h.plain
  obtain ⟨c, cs, hs, -, -⟩ := h
  simpa [Plain, String.toList_append, hs] using hp

theorem column_field_plain (base? : Option Value) {c : ColumnRef} (h : NamedColumn c) :
    Plain (columnField base? c) := by
  unfold columnField
  split
  · rename_i t ht
    split
    · rw [String.append_assoc]
      exact plain_append (h.2 t ht)
    · exact h.1.plain
  · exact h.1.plain

theorem aggregate_name_plain (a : Aggregate) : Plain (aggregateName a) := by
  unfold aggregateName
  split
  · decide
  · split
    · decide
    · rename_i f c _
      cases f <;> simp [Plain, String.toList_append] <;> decide

theorem field_of_ref (base? : Option Value) (c : ColumnRef) :
    Command.fieldOf base? c.toValue = .ok (.text (columnField base? c)) := by
  obtain ⟨table?, name⟩ := c
  cases table? with
  | none => rfl
  | some t =>
    simp only [columnField, ColumnRef.toValue, optionalText, doc, List.map_cons, List.map_nil,
      Command.fieldOf, Value.entry, Value.index, as_key_text, ok_bind, Entries.get?, List.find?,
      same_text, Value.present]
    simp
    split <;> simp

theorem field_of_aggregate (base? : Option Value) (a : Aggregate) :
    Command.fieldOf base? a.toValue = .ok (.text (aggregateName a)) := by
  cases a with
  | countAll => rfl
  | call f c =>
    simp only [Aggregate.toValue, Command.fieldOf, Command.aggregateField, aggregateName, same_text]
    split <;> simp

/-- A comparison with literals has a filter, which is the test of one field. -/
theorem filter_of_term (base? : Option Value) {c : Condition} (ht : Term c)
    (hl : isLiteral c = true) :
    ∃ name t, Command.filter base? c.toValue = .ok (Selector.field name t).toValue ∧ Plain name ∧
      fieldTests base? c = [(name, t)] := by
  cases ht with
  | @compare c r x hc =>
    cases x with
    | column d => simp [isLiteral] at hl
    | literal l =>
      refine ⟨columnField base? c, .compare r (scalarOf l), ?_, column_field_plain base? hc, rfl⟩
      rw [← filter_of_comparison (field_of_ref base? c) (.compare r (scalarOf l)),
        Condition.toValue, Operand.toValue, literal_value]
      rfl
  | @aggregate a r l ha =>
    refine ⟨aggregateName a, .compare r (scalarOf l), ?_, aggregate_name_plain a, rfl⟩
    rw [← filter_of_comparison (field_of_aggregate base? a) (.compare r (scalarOf l)),
      Condition.toValue, literal_value]
    rfl
  | @between c low high hc =>
    refine ⟨c, .between (scalarOf low) (scalarOf high), ?_, hc.plain, rfl⟩
    rw [← filter_of_comparison (rfl : Command.fieldOf base? (.text c) = .ok (.text c)),
      Condition.toValue, literal_value, literal_value]
    rfl
  | @inList c l ls hc =>
    refine ⟨columnField base? c, .among ((l :: ls).map scalarOf), ?_,
      column_field_plain base? hc, rfl⟩
    rw [← filter_of_comparison (field_of_ref base? c), Condition.toValue, literal_values]
    rfl
  | inQuery hc => simp [isLiteral] at hl

theorem connective_of_keyword {w : String}
    (hw : Keyword.ofWord? w.toList = some .andWord ∨ Keyword.ofWord? w.toList = some .orWord) :
    ∃ k : Connective, Command.connectiveOf (.text w) = .ok k.key := by
  rcases hw with hw | hw
  · exact ⟨.both, connective_of_word ⟨.both, w, keyword_spelled hw⟩⟩
  · exact ⟨.either, connective_of_word ⟨.either, w, keyword_spelled hw⟩⟩

/-- Parsed conditions on literals have filters, which are joined to the left as they are. -/
theorem filter_of_comb (base? : Option Value) {c : Condition} (hc : Comb c)
    (hl : isLiteral c = true) :
    ∃ s, Command.filter base? c.toValue = .ok s.toValue ∧ Chain s ∧
      s.tests = fieldTests base? c := by
  induction hc with
  | term ht =>
    obtain ⟨name, t, hf, hn, htests⟩ := filter_of_term base? ht hl
    exact ⟨.field name t, hf, .field hn, htests.symm⟩
  | @connect l w r _ hw hr ih =>
    simp only [isLiteral, Bool.and_eq_true] at hl
    obtain ⟨s, hs, hchain, htests⟩ := ih hl.1
    obtain ⟨name, t, hf, hn, htest⟩ := filter_of_term base? hr hl.2
    obtain ⟨k, hk⟩ := connective_of_keyword hw
    cases k with
    | both =>
      refine ⟨.both s (.field name t), ?_, .both hchain hn, ?_⟩
      · simp [Condition.toValue, Command.filter, hs, hf, hk, Selector.toValue, Connective.key]
      · simp [Selector.tests, fieldTests, htests, htest]
    | either =>
      refine ⟨.either s (.field name t), ?_, .either hchain hn, ?_⟩
      · simp [Condition.toValue, Command.filter, hs, hf, hk, Selector.toValue, Connective.key]
      · simp [Selector.tests, fieldTests, htests, htest]

/-- The filter of a clause, where there is one. -/
inductive ClauseFilter (base? : Option Value) : Option Condition → Option Value → Prop where
  | none : ClauseFilter base? none none
  | some (h : Command.filter base? c.toValue = .ok f) : ClauseFilter base? (some c) (some f)

end DocQuery.Proofs
