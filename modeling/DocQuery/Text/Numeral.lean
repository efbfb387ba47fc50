import DocQuery.Text.Digit
import DocQuery.Text.Quoted
import DocQuery.Text.Ranges

namespace DocQuery.Text

/-- Why a text is no numeral. A message shows at most 200 characters of the text. -/
inductive NumeralError where
  | notNumeral (text : String)
  | tooLong (digits : Nat)
deriving DecidableEq, Repr

def NumeralError.message : NumeralError → String
  | notNumeral s => "invalid literal for int() with base 10: " ++ String.ofList ((quote s).toList.take 200)
  | tooLong n => longNumeralMessage n

/-- White space around a numeral: all but the four separators of ASCII. -/
def isNumeralBlank (c : Char) : Bool := isBlank c && !(0x1c ≤ c.toNat && c.toNat ≤ 0x1f)

/-- The digits at the beginning of a text, and what comes after them. An underscore stands between
two digits; `due` tells that a digit has to come. -/
def digitRun (due : Bool) : List Char → Option (List Char × List Char)
  | [] => if due then none else some ([], [])
  | c :: cs =>
    if isDigit c then (digitRun false cs).map (fun (ds, rest) => (c :: ds, rest))
    else if due then none
    else if c = '_' then digitRun true cs
    else some ([], c :: cs)

def signOf : List Char → Bool × List Char
  | '-' :: cs => (true, cs)
  | '+' :: cs => (false, cs)
  | cs => (false, cs)

/-- Reads an integer. -/
def readInt (s : String) : Except NumeralError Int :=
  let core := ((s.toList.dropWhile isNumeralBlank).reverse.dropWhile isNumeralBlank).reverse
  let (negative, cs) := signOf core
  match digitRun true cs with
  | none => .error (.notNumeral s)
  | some (ds, rest) =>
    if ds.length > maxDigits then .error (.tooLong ds.length)
    else if !rest.isEmpty then .error (.notNumeral s)
    else
      let n : Int := numeral ds
      .ok (if negative then -n else n)

end DocQuery.Text
