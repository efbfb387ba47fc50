import DocQuery.Text.Quoted
import DocQuery.Value.Access

namespace DocQuery.Json

def unitEscape (n : Nat) : List Char := '\\' :: 'u' :: Text.hexDigits 4 n

/-- The escape of a character by its UTF-16 units. -/
def unitsEscape (n : Nat) : List Char :=
  if n < 0x10000 then unitEscape n
  else
    let m := n - 0x10000
    unitEscape (0xd800 + m / 0x400) ++ unitEscape (0xdc00 + m % 0x400)

def escapeChar (c : Char) : List Char :=
  if c = '"' ∨ c = '\\' then ['\\', c]
  else if c = '\n' then ['\\', 'n']
  else if c = '\r' then ['\\', 'r']
  else if c = '\t' then ['\\', 't']
  else if c = '\x0c' then ['\\', 'f']
  else if c = '\x08' then ['\\', 'b']
  else if ' ' ≤ c ∧ c ≤ '~' then [c]
  else unitsEscape c.toNat

def quoted (s : String) : String := String.ofList ('"' :: s.toList.flatMap escapeChar ++ ['"'])

def realText : Number.Double → String
  | .nan => "NaN"
  | .infinite true => "-Infinity"
  | .infinite false => "Infinity"
  | x => x.text

/-- The text of a key. -/
def keyText : Value → Except Fault String
  | .text s => .ok s
  | .real x => .ok (realText x)
  | .bool b => .ok (if b then "true" else "false")
  | .null => .ok "null"
  | .int n => .ok (Value.printInt n)
  | v => .error (.notWritableKey v.kind)

def lineStart (width depth : Nat) : String :=
  String.ofList ('\n' :: List.replicate (width * depth) ' ')

/-- Items between brackets, each on its own line. -/
def bracketed (width depth : Nat) (open_ close : String) : List String → String
  | [] => open_ ++ close
  | items =>
    open_ ++ lineStart width (depth + 1) ++ ("," ++ lineStart width (depth + 1)).intercalate items
      ++ lineStart width depth ++ close

mutual
/-- The text of a value whose line has the given depth of indentation. -/
def write (width depth : Nat) : Value → Except Fault String
  | .null => .ok "null"
  | .bool b => .ok (if b then "true" else "false")
  | .int n => .ok (Value.printInt n)
  | .real x => .ok (realText x)
  | .text s => .ok (quoted s)
  | .list xs => return bracketed width depth "[" "]" (← writeItems width (depth + 1) xs)
  | .tuple xs => return bracketed width depth "[" "]" (← writeItems width (depth + 1) xs)
  | .dict es => return bracketed width depth "\x7b" "\x7d" (← writeEntries width (depth + 1) es)
  | v => .error (.notWritable v.kind)

def writeItems (width depth : Nat) : List Value → Except Fault (List String)
  | [] => .ok []
  | x :: xs => do
    let s ← write width depth x
    return s :: (← writeItems width depth xs)

def writeEntries (width depth : Nat) : List (Value × Value) → Except Fault (List String)
  | [] => .ok []
  | (k, v) :: es => do
    let k ← keyText k
    let s ← write width depth v
    return (quoted k ++ ": " ++ s) :: (← writeEntries width depth es)
end

/-- Writes a value with the given width of indentation. -/
def render (width : Nat) (v : Value) : Except Fault String := write width 0 v

end DocQuery.Json
