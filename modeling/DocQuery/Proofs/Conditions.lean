import DocQuery.Command.Filter
import DocQuery.Proofs.Selectors
import DocQuery.Sql.Tree

namespace DocQuery.Proofs

open Value (doc)

/-- How a condition names a column: as a plain text, as an identifier without a table, or as one
with the base table. -/
inductive Column where
  | plain (name : String)
  | unqualified (name : String)
  | ofBase (name : String)
deriving Repr

namespace Column

def name : Column → String
  | plain n | unqualified n | ofBase n => n

/-- The identifier in a tree, for the base table that is current. -/
def toValue (base? : Option String) : Column → Value
  | plain n => .text n
  | unqualified n => Sql.ColumnRef.toValue ⟨none, n⟩
  | ofBase n => Sql.ColumnRef.toValue ⟨base?, n⟩

end Column

inductive Connective where
  | both | either
deriving DecidableEq, Repr

namespace Connective

def spelling : Connective → String
  | both => "AND"
  | either => "OR"

def key : Connective → String
  | both => "$and"
  | either => "$or"

end Connective

/-- A connective as it is written, in any letter case. -/
structure Word where
  connective : Connective
  text : String
  spells : text.toList.map Char.toUpper = connective.spelling.toList

/-- A condition: comparisons of columns with literals, joined by connectives. -/
inductive Predicate where
  | test (column : Column) (test : FieldTest)
  | connect (left : Predicate) (word : Word) (right : Predicate)

namespace FieldTest

/-- The operator of a comparison. -/
def operator : FieldTest → String
  | compare r _ => r.symbol.spelling
  | between _ _ => "BETWEEN"
  | among _ => "IN"

/-- The value in a comparison: a literal, a pair or a list. -/
def operand : FieldTest → Value
  | compare _ v => v.toValue
  | between low high => .tuple [low.toValue, high.toValue]
  | among vs => .list (vs.map Scalar.toValue)

end FieldTest

namespace Predicate

def toValue (base? : Option String) : Predicate → Value
  | test c t => .comparison (c.toValue base?) (.text t.operator) t.operand
  | connect l w r => .logical (l.toValue base?) (.text w.text) (r.toValue base?)

/-- The scalar that a document holds under a column. -/
def scalarAt (d : Entries) (column : String) : Option Scalar :=
  match Entries.field d column with
  | .int n => some (.int n)
  | .text s => some (.text s)
  | _ => none

/-- Whether a condition is true of a document. A comparison with a missing scalar is not. -/
def truth (d : Entries) : Predicate → Bool
  | test c t => (scalarAt d c.name).any (fun x => t.accepts x)
  | connect l w r =>
    match w.connective with
    | .both => l.truth d && r.truth d
    | .either => l.truth d || r.truth d

/-- A document holds a scalar under each compared column. -/
def Fits (d : Entries) : Predicate → Prop
  | test c _ => (scalarAt d c.name).isSome
  | connect l _ r => l.Fits d ∧ r.Fits d

def toSelector : Predicate → Selector
  | test c t => .field c.name t
  | connect l w r =>
    match w.connective with
    | .both => .both l.toSelector r.toSelector
    | .either => .either l.toSelector r.toSelector

end Predicate

theorem upper_char_ascii : ∀ n < 128, Text.upperChar (Char.ofNat n) = [(Char.ofNat n).toUpper] := by
  decide +kernel

theorem to_upper_ascii {c : Char} (h : c.toUpper.toNat < 128) : c.toNat < 128 := by
  unfold Char.toUpper at h
  split at h
  · rename_i hc
    have hz : c.toNat ≤ 122 := UInt32.le_iff_toNat_le.mp hc.2
    omega
  · exact h

/-- The upper case of all scripts is that of ASCII on words that are ASCII in upper case. -/
theorem upper_of_ascii (w : String) (h : ∀ c ∈ w.toList, c.toUpper.toNat < 128) :
    Text.upper w = String.ofList (w.toList.map Char.toUpper) := by
  unfold Text.upper
  congr 1
  rw [List.map_eq_flatMap]
  apply List.flatMap_congr
  intro c hc
  have := upper_char_ascii c.toNat (to_upper_ascii (h c hc))
  rwa [Char.ofNat_toNat] at this

theorem spelling_ascii (k : Connective) : ∀ c ∈ k.spelling.toList, c.toNat < 128 := by
  cases k <;> simp [Connective.spelling]

/-- A connective is recognised in every letter case. -/
theorem connective_of_word (w : Word) :
    Command.connectiveOf (.text w.text) = .ok w.connective.key := by
  have hup : Text.upper w.text = w.connective.spelling := by
    rw [upper_of_ascii, w.spells, String.ofList_toList]
    intro c hc
    apply spelling_ascii w.connective
    rw [← w.spells]
    exact List.mem_map_of_mem hc
  unfold Command.connectiveOf
  cases hk : w.connective with
  | both => simp [Value.asText, hup, hk, Connective.spelling, Connective.key]
  | either => simp [Value.asText, hup, hk, Connective.spelling, Connective.key]

/-- However a column is named, its field stands at the top of a document. -/
theorem field_of_column (base? : Option String) (c : Column) :
    Command.fieldOf (base?.map .text) (c.toValue base?) = .ok (.text c.name) := by
  cases c with
  | plain n => rfl
  | unqualified n => rfl
  | ofBase n =>
    cases base? with
    | none => rfl
    | some b =>
      simp [Column.toValue, Column.name, Sql.ColumnRef.toValue, Sql.optionalText, doc,
        Command.fieldOf, Value.entry, Value.index, Entries.get?]

/-- A comparison with literals becomes the test of its field. -/
theorem filter_of_comparison {base? : Option Value} {identifier : Value} {name : String}
    (hf : Command.fieldOf base? identifier = .ok (.text name)) (t : FieldTest) :
    Command.filter base? (.comparison identifier (.text t.operator) t.operand) =
      .ok (Selector.field name t).toValue := by
  simp only [Command.filter, hf, command_lift, ok_bind]
  cases t with
  | compare r v => cases r <;> rfl
  | between low high => rfl
  | among vs => rfl

/-- The filter of a condition always exists, and has the shape of the condition. -/
theorem filter_of_predicate (base? : Option String) (p : Predicate) :
    Command.filter (base?.map .text) (p.toValue base?) = .ok p.toSelector.toValue := by
  induction p with
  | test c t => exact filter_of_comparison (field_of_column base? c) t
  | connect l w r ihl ihr =>
    simp only [Predicate.toValue, Command.filter, ihl, ihr, connective_of_word, ok_bind]
    cases hk : w.connective <;> simp [Predicate.toSelector, hk, Selector.toValue, Connective.key]

theorem field_of_scalar {d : Entries} {column : String} {x : Scalar}
    (h : Predicate.scalarAt d column = some x) : Entries.field d column = x.toValue := by
  unfold Predicate.scalarAt at h
  split at h
  · rename_i n hn
    cases h
    exact hn
  · rename_i s hs
    cases h
    exact hs
  · cases h

theorem selector_truth (p : Predicate) (d : Entries) (h : p.Fits d) :
    p.toSelector.holds (Entries.field d) = p.truth d := by
  induction p with
  | test c t =>
    obtain ⟨x, hx⟩ := Option.isSome_iff_exists.mp h
    simp [Predicate.toSelector, Selector.holds, Predicate.truth, hx, field_of_scalar hx,
      FieldTest.holds_scalar]
  | connect l w r ihl ihr =>
    have hl := ihl h.1
    have hr := ihr h.2
    cases hk : w.connective <;>
      simp [Predicate.toSelector, Selector.holds, Predicate.truth, hk, hl, hr]

/-- Translation keeps the meaning of a condition: it gives a filter, and the filter selects just
the documents of which the condition is true. -/
theorem filter_selects_iff_true (base? : Option String) (p : Predicate) (d : Entries)
    (h : p.Fits d) :
    ∃ f, Command.filter (base?.map .text) (p.toValue base?) = .ok f ∧
      (holds (Entries.field d) f = true ↔ p.truth d = true) := by
  refine ⟨p.toSelector.toValue, filter_of_predicate base? p, ?_⟩
  rw [holds_to_value, selector_truth p d h]

/-- `age >= 18 aNd name IN ('Ada', 'Bo') Or users.age BETWEEN 3 AND 5`, of a document with both
columns. -/
theorem filter_selects_ada :
    let p : Predicate := .connect
      (.connect (.test (.unqualified "age") (.compare .ge (.int 18))) ⟨.both, "aNd", by decide⟩
        (.test (.plain "name") (.among [.text "Ada", .text "Bo"])))
      ⟨.either, "Or", by decide⟩
      (.test (.ofBase "age") (.between (.int 3) (.int 5)))
    let d : Entries := [(.text "name", .text "Ada"), (.text "age", .int 36)]
    p.Fits d ∧ p.truth d = true ∧
      ∃ f, Command.filter (some (.text "users")) (p.toValue (some "users")) = .ok f ∧
        (holds (Entries.field d) f = true ↔ p.truth d = true) := by
  intro p d
  have hfits : p.Fits d := ⟨⟨rfl, rfl⟩, rfl⟩
  exact ⟨hfits, rfl, filter_selects_iff_true (some "users") p d hfits⟩

end DocQuery.Proofs
