import DocQuery.Number.Double
import DocQuery.Text.Digit
import DocQuery.Text.Word

namespace DocQuery.Literal

inductive Token where
  | number (n : Nat)
  | real (x : Number.Double)
  | name (s : String)
  | text (s : String)
  | mark (s : String)
  | lineEnd
deriving DecidableEq, Repr

def marks : List String :=
  ["**", "//", "<<", ">>", "<=", ">=", "==", "!=", "+", "-", "*", "/", "%", "@", "&", "|", "^", "~",
   "<", ">", "(", ")", "[", "]", "\x7b", "\x7d", ",", ":", ".", "="]

def mark? (cs : List Char) : Option (String × List Char) :=
  (marks.find? (fun m => m.toList.isPrefixOf cs)).map (fun m => (m, cs.drop m.length))

def isNameStart (c : Char) : Bool := Text.isWord c && !Text.isDigit c

def hexValue? (c : Char) : Option Nat :=
  if '0' ≤ c ∧ c ≤ '9' then some (c.toNat - '0'.toNat)
  else if 'a' ≤ c ∧ c ≤ 'f' then some (c.toNat - 'a'.toNat + 10)
  else if 'A' ≤ c ∧ c ≤ 'F' then some (c.toNat - 'A'.toNat + 10)
  else none

/-- A character by exactly `width` hexadecimal digits. -/
def hexChar? (width : Nat) (cs : List Char) : Option (Char × List Char) := do
  let digits ← (cs.take width).mapM hexValue?
  let n := digits.foldl (fun n d => 16 * n + d) 0
  if digits.length = width ∧ n.isValidChar then some (Char.ofNat n, cs.drop width) else none

def isOctal (c : Char) : Bool := '0' ≤ c && c ≤ '7'

def octalChar (cs : List Char) : Char × List Char :=
  let digits := (cs.take 3).takeWhile isOctal
  (Char.ofNat (digits.foldl (fun n d => 8 * n + (d.toNat - '0'.toNat)) 0), cs.drop digits.length)

/-- What follows a backslash: the characters that it stands for, and the rest. -/
def escape? : List Char → Option (List Char × List Char)
  | [] => none
  | '\n' :: cs => some ([], cs)
  | 'n' :: cs => some (['\n'], cs)
  | 'r' :: cs => some (['\r'], cs)
  | 't' :: cs => some (['\t'], cs)
  | 'a' :: cs => some (['\x07'], cs)
  | 'b' :: cs => some (['\x08'], cs)
  | 'f' :: cs => some (['\x0c'], cs)
  | 'v' :: cs => some (['\x0b'], cs)
  | 'x' :: cs => (hexChar? 2 cs).map (fun p => ([p.1], p.2))
  | 'u' :: cs => (hexChar? 4 cs).map (fun p => ([p.1], p.2))
  | 'U' :: cs => (hexChar? 8 cs).map (fun p => ([p.1], p.2))
  | 'N' :: _ => none
  | c :: cs =>
    if c = '\\' ∨ c = '\'' ∨ c = '"' then some ([c], cs)
    else if isOctal c then
      let (d, rest) := octalChar (c :: cs)
      some ([d], rest)
    else some (['\\', c], cs)

/-- The text up to a closing quote, which may be of three characters. Only then it may hold line
ends. -/
def quoted (close : List Char) : Nat → List Char → Option (List Char × List Char)
  | 0, _ => none
  | _, [] => none
  | n + 1, c :: cs =>
    if close.isPrefixOf (c :: cs) then some ([], (c :: cs).drop close.length)
    else if c = '\\' then do
      let (here, rest) ← escape? cs
      let (more, rest) ← quoted close n rest
      some (here ++ more, rest)
    else if c = '\n' ∧ close.length = 1 then none
    else do
      let (more, rest) ← quoted close n cs
      some (c :: more, rest)

def quotedAt (q : Char) (cs : List Char) : Option (List Char × List Char) :=
  if [q, q].isPrefixOf cs then quoted [q, q, q] cs.length (cs.drop 2)
  else quoted [q] (cs.length + 1) cs

def isDecimal (c : Char) : Bool := '0' ≤ c && c ≤ '9'

/-- A number: an integer without leading zeros, or one with decimal places. -/
def number? (cs : List Char) : Option (Token × List Char) :=
  let whole := cs.takeWhile isDecimal
  let rest := cs.dropWhile isDecimal
  let stop (t : Token) (rest : List Char) : Option (Token × List Char) :=
    match rest with
    | c :: _ => if Text.isWord c then none else some (t, rest)
    | [] => some (t, rest)
  match rest with
  | '.' :: more =>
    let places := more.takeWhile isDecimal
    stop (.real (.ofDecimal false (Text.numeral (whole ++ places)) (-places.length)))
      (more.dropWhile isDecimal)
  | _ =>
    if whole.length > Text.maxDigits then none
    else if whole.head? = some '0' ∧ whole.any (· != '0') then none
    else stop (.number (Text.numeral whole)) rest

def isOpening (m : String) : Bool := m == "(" || m == "[" || m == "\x7b"

def isClosing (m : String) : Bool := m == ")" || m == "]" || m == "\x7d"

/-- The tokens of a text, at a depth of brackets. -/
def tokens : Nat → Nat → List Char → Option (List Token)
  | _, _, [] => some []
  | 0, _, _ => none
  | n + 1, depth, c :: cs =>
    if c = ' ' ∨ c = '\t' ∨ c = '\x0c' then tokens n depth cs
    else if c = '\n' then
      if depth = 0 then do return .lineEnd :: (← tokens n depth cs) else tokens n depth cs
    else if c = '#' then tokens n depth (cs.dropWhile (· != '\n'))
    else if c = '\\' then
      match cs with
      | '\n' :: d :: rest => tokens n depth (d :: rest)
      | _ => none
    else if c = '\'' ∨ c = '"' then do
      let (s, rest) ← quotedAt c cs
      return .text (String.ofList s) :: (← tokens n depth rest)
    else if isDecimal c then do
      let (t, rest) ← number? (c :: cs)
      return t :: (← tokens n depth rest)
    else if isNameStart c then do
      return .name (String.ofList (c :: cs.takeWhile Text.isWord))
        :: (← tokens n depth (cs.dropWhile Text.isWord))
    else do
      let (m, rest) ← mark? (c :: cs)
      let depth := if isOpening m then depth + 1 else if isClosing m then depth - 1 else depth
      return .mark m :: (← tokens n depth rest)

end DocQuery.Literal
