import DocQuery.Value.Print

namespace DocQuery

inductive Fault where
  /-- The value holds nothing under an index. -/
  | notIndexed (k : Kind)
  /-- The index of a sequence is no integer. -/
  | badIndex (sequence index : Kind)
  | outOfRange (sequence : Kind)
  /-- A document lacks the key with this literal form. -/
  | noKey (key : String)
  /-- The value cannot be a key. -/
  | noHash (k : Kind)
  /-- The value has no members. -/
  | noMembers (k : Kind)
  /-- Only a text can be part of a text. -/
  | notPartOfText (k : Kind)
  | notIterable (k : Kind)
  | noLength (k : Kind)
  | noField (k : Kind) (field : String)
  /-- The value is not a sequence of parts. -/
  | noParts (k : Kind)
  | tooManyParts (expected : Nat)
  | tooFewParts (expected actual : Nat)
  | notLess (left right : Kind)
  | notGreater (left right : Kind)
  /-- A list gives up items by their place only. -/
  | listPop
  /-- Only a text can be searched. -/
  | notText (k : Kind)
  /-- The value has no form in an exchange format. -/
  | notWritable (k : Kind)
  | notWritableKey (k : Kind)
deriving DecidableEq, Repr

namespace Fault

def sequenceName : Kind → String
  | .text => "string"
  | k => k.name

def message : Fault → String
  | notIndexed k => s!"'{k.name}' object is not subscriptable"
  | badIndex .text k => s!"string indices must be integers, not '{k.name}'"
  | badIndex s k => s!"{s.name} indices must be integers or slices, not {k.name}"
  | outOfRange s => s!"{sequenceName s} index out of range"
  | noKey key => key
  | noHash k => s!"unhashable type: '{k.name}'"
  | noMembers k => s!"argument of type '{k.name}' is not iterable"
  | notPartOfText k => s!"'in <string>' requires string as left operand, not {k.name}"
  | notIterable k => s!"'{k.name}' object is not iterable"
  | noLength k => s!"object of type '{k.name}' has no len()"
  | noField k field => s!"'{k.name}' object has no attribute '{field}'"
  | noParts k => s!"cannot unpack non-iterable {k.name} object"
  | tooManyParts n => s!"too many values to unpack (expected {n})"
  | tooFewParts n m => s!"not enough values to unpack (expected {n}, got {m})"
  | notLess a b => s!"'<' not supported between instances of '{a.name}' and '{b.name}'"
  | notGreater a b => s!"'>' not supported between instances of '{a.name}' and '{b.name}'"
  | listPop => "pop expected at most 1 argument, got 2"
  | notText k => s!"expected string or bytes-like object, got '{k.name}'"
  | notWritable k => s!"Object of type {k.name} is not JSON serializable"
  | notWritableKey k => s!"keys must be str, int, float, bool or None, not {k.name}"

end Fault

end DocQuery
