import DocQuery.Text.Digit
import DocQuery.Value.Access

namespace DocQuery.Json

inductive Expected where
  | value
  | propertyName
  | colon
  | comma
  | nothing
  | noMark
  | closingQuote
  | noControlCharacter
  | escape
  | unicodeEscape
deriving DecidableEq, Repr

def Expected.message : Expected → String
  | value => "Expecting value"
  | propertyName => "Expecting property name enclosed in double quotes"
  | colon => "Expecting ':' delimiter"
  | comma => "Expecting ',' delimiter"
  | nothing => "Extra data"
  | noMark => "Unexpected UTF-8 BOM (decode using utf-8-sig)"
  | closingQuote => "Unterminated string starting at"
  | noControlCharacter => "Invalid control character at"
  | escape => "Invalid \\escape"
  | unicodeEscape => "Invalid \\uXXXX escape"

inductive ReadError where
  | syntax_ (expected : Expected) (line column place : Nat)
  | longNumeral (digits : Nat)
deriving DecidableEq, Repr

def ReadError.message : ReadError → String
  | syntax_ e line column place => s!"{e.message}: line {line} column {column} (char {place})"
  | longNumeral n => Text.longNumeralMessage n

/-- A failure inside a text, with the number of characters left there. -/
inductive Stop where
  | at_ (expected : Expected) (left : Nat)
  | longNumeral (digits : Nat)

abbrev Reader (α : Type) := List Char → Except Stop (α × List Char)

def stop (e : Expected) (cs : List Char) : Except Stop α := .error (.at_ e cs.length)

def isSpace (c : Char) : Bool := c == ' ' || c == '\t' || c == '\n' || c == '\r'

def skip (cs : List Char) : List Char := cs.dropWhile isSpace

def hexDigit? (c : Char) : Option Nat :=
  if '0' ≤ c ∧ c ≤ '9' then some (c.toNat - '0'.toNat)
  else if 'a' ≤ c ∧ c ≤ 'f' then some (c.toNat - 'a'.toNat + 10)
  else if 'A' ≤ c ∧ c ≤ 'F' then some (c.toNat - 'A'.toNat + 10)
  else none

/-- The unit that four hexadecimal digits write. -/
def unit? (cs : List Char) : Option Nat := do
  let ds ← (cs.take 4).mapM hexDigit?
  if ds.length = 4 then some (ds.foldl (fun n d => 16 * n + d) 0) else none

def charOf (n : Nat) : Char := if n.isValidChar then Char.ofNat n else '�'

def isHigh (u : Nat) : Bool := 0xd800 ≤ u && u < 0xdc00

def isLow (u : Nat) : Bool := 0xdc00 ≤ u && u < 0xe000

/-- A unit, or a pair of them, from the `u` of an escape on. At least one character must follow. -/
def unicodeEscape : Reader Char
  | [] => stop .unicodeEscape []
  | u :: cs =>
    if cs.length ≤ 4 then stop .unicodeEscape (u :: cs)
    else
      match unit? cs with
      | none => stop .unicodeEscape (u :: cs)
      | some high =>
        match cs.drop 4 with
        | '\\' :: 'u' :: more =>
          if isHigh high && more.length > 4 then
            match unit? more with
            | none => stop .unicodeEscape ('u' :: more)
            | some low =>
              if isLow low then
                .ok (charOf (0x10000 + 0x400 * (high - 0xd800) + (low - 0xdc00)), more.drop 4)
              else .ok (charOf high, cs.drop 4)
          else .ok (charOf high, cs.drop 4)
        | rest => .ok (charOf high, rest)

def simpleEscape? : Char → Option Char
  | '"' => some '"'
  | '\\' => some '\\'
  | '/' => some '/'
  | 'b' => some '\x08'
  | 'f' => some '\x0c'
  | 'n' => some '\n'
  | 'r' => some '\r'
  | 't' => some '\t'
  | _ => none

/-- The rest of a text whose opening quote has `start` characters from it on. -/
def textFrom (start : Nat) : Nat → Reader (List Char)
  | 0, _ => .error (.at_ .closingQuote start)
  | _, [] => .error (.at_ .closingQuote start)
  | n + 1, c :: cs =>
    if c = '"' then .ok ([], cs)
    else if c = '\\' then
      match cs with
      | [] => .error (.at_ .closingQuote start)
      | 'u' :: _ => do
        let (d, rest) ← unicodeEscape cs
        let (ds, rest) ← textFrom start n rest
        return (d :: ds, rest)
      | e :: rest =>
        match simpleEscape? e with
        | some d => do
          let (ds, rest) ← textFrom start n rest
          return (d :: ds, rest)
        | none => stop .escape (c :: cs)
    else if c.toNat < 0x20 then stop .noControlCharacter (c :: cs)
    else do
      let (ds, rest) ← textFrom start n cs
      return (c :: ds, rest)

/-- A text from its opening quote on. -/
def text (cs : List Char) : Except Stop (String × List Char) := do
  let (s, rest) ← textFrom cs.length cs.length (cs.drop 1)
  return (String.ofList s, rest)

def isDigit (c : Char) : Bool := '0' ≤ c && c ≤ '9'

/-- The places after a point, if there is at least one. -/
def fraction : List Char → List Char × List Char
  | '.' :: cs =>
    if cs.head?.any isDigit then (cs.takeWhile isDigit, cs.dropWhile isDigit) else ([], '.' :: cs)
  | cs => ([], cs)

def exponentSign : List Char → Bool × List Char
  | '-' :: cs => (true, cs)
  | '+' :: cs => (false, cs)
  | cs => (false, cs)

/-- An exponent, if it has at least one digit. -/
def exponent? : List Char → Option Int × List Char
  | c :: cs =>
    let (negative, ds) := exponentSign cs
    if (c = 'e' ∨ c = 'E') ∧ ds.head?.any isDigit then
      let n : Int := Text.numeral (ds.takeWhile isDigit)
      (some (if negative then -n else n), ds.dropWhile isDigit)
    else (none, c :: cs)
  | [] => (none, [])

/-- The digits before a point: a zero alone, or a numeral that starts with none. -/
def whole : List Char → List Char × List Char
  | '0' :: cs => (['0'], cs)
  | cs => (cs.takeWhile isDigit, cs.dropWhile isDigit)

def numberFrom (negative : Bool) (cs : List Char) : Except Stop (Value × List Char) :=
  let (digits, rest) := whole cs
  let (places, rest) := fraction rest
  let (exponent?, rest) := exponent? rest
  if places.isEmpty && exponent?.isNone then
    if digits.length > Text.maxDigits then .error (.longNumeral digits.length)
    else
      let n : Int := Text.numeral digits
      .ok (.int (if negative then -n else n), rest)
  else
    .ok (.real (.ofDecimal negative (Text.numeral (digits ++ places))
      (exponent?.getD 0 - places.length)), rest)

def number : Reader Value
  | '-' :: cs => if cs.head?.any isDigit then numberFrom true cs else stop .value ('-' :: cs)
  | cs => if cs.head?.any isDigit then numberFrom false cs else stop .value cs

def constants : List (String × Value) :=
  [("null", .null), ("true", .bool true), ("false", .bool false), ("NaN", .real .nan),
   ("Infinity", .real (.infinite false)), ("-Infinity", .real (.infinite true))]

def scalar (cs : List Char) : Except Stop (Value × List Char) :=
  match constants.find? (fun k => k.1.toList.isPrefixOf cs) with
  | some (name, v) => .ok (v, cs.drop name.length)
  | none => number cs

mutual
/-- A value; every level of nesting takes a character. -/
def value : Nat → Reader Value
  | 0, cs => stop .value cs
  | n + 1, cs =>
    match cs with
    | '"' :: _ => do
      let (s, rest) ← text cs
      return (.text s, rest)
    | '\x7b' :: rest =>
      match skip rest with
      | '\x7d' :: rest => .ok (.dict [], rest)
      | rest => do
        let (es, rest) ← members n [] rest
        return (.dict es, rest)
    | '[' :: rest =>
      match skip rest with
      | ']' :: rest => .ok (.list [], rest)
      | rest => do
        let (xs, rest) ← elements n rest
        return (.list xs, rest)
    | cs => scalar cs

/-- The members of an object up to its end. A repeated name takes the later value. -/
def members : Nat → Entries → Reader Entries
  | 0, _, cs => stop .value cs
  | n + 1, done, cs =>
    match cs with
    | '"' :: _ => do
      let (name, rest) ← text cs
      match skip rest with
      | ':' :: rest => do
        let (v, rest) ← value n (skip rest)
        let done := Entries.put done (.text name) v
        match skip rest with
        | '\x7d' :: rest => return (done, rest)
        | ',' :: rest => members n done (skip rest)
        | rest => stop .comma rest
      | rest => stop .colon rest
    | cs => stop .propertyName cs

/-- The elements of an array up to its end. -/
def elements : Nat → Reader (List Value)
  | 0, cs => stop .value cs
  | n + 1, cs => do
    let (v, rest) ← value n cs
    match skip rest with
    | ']' :: rest => return ([v], rest)
    | ',' :: rest => do
      let (vs, rest) ← elements n (skip rest)
      return (v :: vs, rest)
    | rest => stop .comma rest
end

/-- The failure at a place of a text. -/
def locate (cs : List Char) : Stop → ReadError
  | .longNumeral n => .longNumeral n
  | .at_ e left =>
    let before := cs.take (cs.length - left)
    .syntax_ e (before.count '\n' + 1) ((before.reverse.takeWhile (· != '\n')).length + 1) before.length

def whole? (cs : List Char) : Except Stop Value := do
  let (v, rest) ← value (2 * cs.length + 2) (skip cs)
  match skip rest with
  | [] => return v
  | rest => stop .nothing rest

/-- Reads the value that a text is. -/
def parse (cs : List Char) : Except ReadError Value :=
  match whole? cs with
  | .ok v => .ok v
  | .error e => .error (locate cs e)

/-- Reads the value of a text that must not start with a byte order mark. -/
def read (cs : List Char) : Except ReadError Value :=
  if cs.head? = some '\ufeff' then .error (locate cs (.at_ .noMark cs.length)) else parse cs

end DocQuery.Json
