import DocQuery.Value.Fault
import DocQuery.Value.Order

namespace DocQuery

namespace Entries

/-- The value under a key. -/
def get? (es : Entries) (key : Value) : Option Value :=
  (List.find? (fun e => e.1.same key) es).map (·.2)

def has (es : Entries) (key : Value) : Bool := es.any (fun e => e.1.same key)

/-- Puts a value in the place of its key, or at the end. -/
def put : Entries → Value → Value → Entries
  | [], key, v => [(key, v)]
  | (k, w) :: es, key, v => if k.same key then (k, v) :: es else (k, w) :: put es key v

/-- The value under a text key, `null` where it is missing. -/
def field (es : Entries) (key : String) : Value := (get? es (.text key)).getD .null

end Entries

namespace Value

/-- Texts inside messages and commands. -/
def str (v : Value) : Except Fault String := v.shown.mapError .notIterable

/-- The literal form. -/
def repr (v : Value) : Except Fault String := v.literal.mapError .notIterable

mutual
/-- The kind for which a value cannot be a key. -/
def keyless? : Value → Option Kind
  | list _ => some .list
  | dict _ => some .dict
  | tuple xs => keylessIn? xs
  | _ => none

def keylessIn? : List Value → Option Kind
  | [] => none
  | x :: xs =>
    match keyless? x with
    | some k => some k
    | none => keylessIn? xs
end

/-- Checks that a value can be a key. -/
def asKey (v : Value) : Except Fault Unit :=
  match v.keyless? with
  | some k => .error (.noHash k)
  | none => .ok ()

/-- The literal form of a key in a failure. -/
def keyText (v : Value) : String := v.literal.toOption.getD ""

/-- The place that a value names in a sequence, counted from the end if negative. -/
def place? : Value → Option Int
  | int n => some n
  | bool b => some (if b then 1 else 0)
  | _ => none

def itemAt (sequence : Kind) (items : List Value) (key : Value) : Except Fault Value :=
  match key.place? with
  | none => .error (.badIndex sequence key.kind)
  | some n =>
    let n := if n < 0 then n + items.length else n
    if n < 0 then .error (.outOfRange sequence)
    else
      match items.drop n.toNat with
      | x :: _ => .ok x
      | [] => .error (.outOfRange sequence)

def chars (s : String) : List Value := s.toList.map (fun c => text (String.singleton c))

/-- What a value holds under an index. -/
def index (v key : Value) : Except Fault Value :=
  match v with
  | dict es => do
    key.asKey
    match Entries.get? es key with
    | some w => .ok w
    | none => .error (.noKey key.keyText)
  | list xs => itemAt .list xs key
  | tuple xs => itemAt .tuple xs key
  | text s => itemAt .text (chars s) key
  | _ => .error (.notIndexed v.kind)

/-- What a value holds under a text key. -/
def entry (v : Value) (key : String) : Except Fault Value := v.index (text key)

/-- Whether one list of characters occurs within another. -/
def occursIn (part : List Char) : List Char → Bool
  | [] => part.isEmpty
  | c :: cs => part.isPrefixOf (c :: cs) || occursIn part cs

/-- Whether a value is a key, an item or a part of another. -/
def isIn (x v : Value) : Except Fault Bool :=
  match v with
  | dict es => do
    x.asKey
    return Entries.has es x
  | list xs => .ok (xs.any x.same)
  | tuple xs => .ok (xs.any x.same)
  | text s =>
    match x with
    | text part => .ok (occursIn part.toList s.toList)
    | _ => .error (.notPartOfText x.kind)
  | _ => .error (.noMembers v.kind)

/-- The values that a value is made of: items, keys or characters. -/
def items (v : Value) : Except Fault (List Value) :=
  match v with
  | list xs => .ok xs
  | tuple xs => .ok xs
  | dict es => .ok (es.map (·.1))
  | text s => .ok (chars s)
  | _ => .error (.notIterable v.kind)

def size (v : Value) : Except Fault Nat :=
  match v with
  | list xs => .ok xs.length
  | tuple xs => .ok xs.length
  | dict es => .ok es.length
  | text s => .ok s.length
  | _ => .error (.noLength v.kind)

def twoOf {α : Type} : List α → Except Fault (α × α)
  | [a, b] => .ok (a, b)
  | xs => if xs.length < 2 then .error (.tooFewParts 2 xs.length) else .error (.tooManyParts 2)

/-- The two parts of a value that has two. -/
def pair (v : Value) : Except Fault (Value × Value) :=
  match v.items with
  | .ok xs => twoOf xs
  | .error _ => .error (.noParts v.kind)

/-- The parts of a text between the dots. -/
def dotParts : List Char → List (List Char)
  | [] => [[]]
  | '.' :: cs => [] :: dotParts cs
  | c :: cs =>
    match dotParts cs with
    | p :: ps => (c :: p) :: ps
    | [] => [[c]]

def hasDot (s : String) : Bool := s.toList.contains '.'

/-- The table and the column of a dotted name. -/
def dotted (s : String) : Except Fault (Value × Value) :=
  twoOf ((dotParts s.toList).map (fun p => text (String.ofList p)))

/-- A document with one entry. -/
def entryOf (key v : Value) : Except Fault Value := do
  key.asKey
  return dict [(key, v)]

/-- Puts a value under a key. -/
def insert (es : Entries) (key v : Value) : Except Fault Entries := do
  key.asKey
  return Entries.put es key v

/-- The parts of a select statement; `field` is the part that is asked for first. -/
def asSelect (field : String) : Value → Except Fault (SelectOf Value)
  | select p => .ok p
  | v => .error (.noField v.kind field)

/-- The parts of a comparison; `field` is the part that is asked for first. -/
def asComparison (field : String) : Value → Except Fault (Value × Value × Value)
  | comparison i o v => .ok (i, o, v)
  | v => .error (.noField v.kind field)

/-- The text that a value is; `field` is what is asked of it. -/
def asText (field : String) : Value → Except Fault String
  | text s => .ok s
  | v => .error (.noField v.kind field)

/-- The text that is to be searched. -/
def searched : Value → Except Fault String
  | text s => .ok s
  | v => .error (.notText v.kind)

def asDict (field : String) : Value → Except Fault Entries
  | dict es => .ok es
  | v => .error (.noField v.kind field)

end Value

end DocQuery
