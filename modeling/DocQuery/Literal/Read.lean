import DocQuery.Literal.Token
import DocQuery.Text.Ranges
import DocQuery.Value.Access

namespace DocQuery.Literal

inductive ReadError where
  | noExpression
  | notLiteral
  | fault (f : Fault)
deriving DecidableEq, Repr

/-- Expressions, as far as literals are concerned. -/
inductive Term where
  | atom (v : Value)
  /-- A number with a sign, which takes no second one. -/
  | signed (v : Value)
  | list (items : List Term)
  | tuple (items : List Term)
  | dict (entries : List (Term × Term))
  | other

namespace Term

def negative : Term → Term
  | atom (.int n) => signed (.int (-n))
  | atom (.real (.finite s m e)) => signed (.real (.finite (!s) m e))
  | _ => other

def positive : Term → Term
  | atom (.int n) => signed (.int n)
  | atom (.real x) => signed (.real x)
  | _ => other

mutual
/-- The value of a literal. -/
def value : Term → Except ReadError Value
  | atom v => .ok v
  | signed v => .ok v
  | list ts => return .list (← values ts)
  | tuple ts => return .tuple (← values ts)
  | dict es => return .dict (← entries [] es)
  | other => .error .notLiteral

def values : List Term → Except ReadError (List Value)
  | [] => .ok []
  | t :: ts => do
    let v ← value t
    return v :: (← values ts)

/-- Adds entries from left to right; a repeated key takes the later value. -/
def entries (done : Entries) : List (Term × Term) → Except ReadError Entries
  | [] => .ok done
  | (k, v) :: es => do
    let k ← value k
    let v ← value v
    match Value.insert done k v with
    | .ok done => entries done es
    | .error f => .error (.fault f)
end

end Term

def reserved : List String :=
  ["and", "as", "assert", "async", "await", "break", "class", "continue", "def", "del", "elif",
   "else", "except", "finally", "for", "from", "global", "if", "import", "in", "is", "lambda",
   "nonlocal", "not", "or", "pass", "raise", "return", "try", "while", "with", "yield"]

def named? : String → Option Term
  | "None" => some (.atom .null)
  | "True" => some (.atom (.bool true))
  | "False" => some (.atom (.bool false))
  | s => if reserved.contains s then none else some .other

abbrev Tokens := List Token

/-- The rest after an operator between two operands. -/
def binary? : Tokens → Option Tokens
  | .name "not" :: .name "in" :: ts => some ts
  | .name "is" :: .name "not" :: ts => some ts
  | .name s :: ts => if ["and", "or", "in", "is"].contains s then some ts else none
  | .mark m :: ts =>
    if ["**", "//", "<<", ">>", "<=", ">=", "==", "!=", "+", "-", "*", "/", "%", "@", "&", "|", "^",
        "<", ">"].contains m then some ts
    else none
  | _ => none

/-- Adjacent quoted texts are one. -/
def joinTexts (s : String) : Tokens → String × Tokens
  | .text t :: ts => joinTexts (s ++ t) ts
  | ts => (s, ts)

mutual
def expression : Nat → Tokens → Option (Term × Tokens)
  | 0, _ => none
  | n + 1, ts => do
    let (t, ts) ← operand n ts
    operators n t ts

/-- What may follow an operand. -/
def operators : Nat → Term → Tokens → Option (Term × Tokens)
  | 0, _, _ => none
  | n + 1, t, ts =>
    match binary? ts with
    | some rest => do
      let (_, rest) ← operand n rest
      operators n .other rest
    | none =>
      match ts with
      | .name "if" :: ts => do
        let (_, ts) ← expression n ts
        match ts with
        | .name "else" :: ts => do
          let (_, ts) ← expression n ts
          some (.other, ts)
        | _ => none
      | ts => some (t, ts)

def operand : Nat → Tokens → Option (Term × Tokens)
  | 0, _ => none
  | n + 1, .mark "-" :: ts => do
    let (t, ts) ← operand n ts
    some (t.negative, ts)
  | n + 1, .mark "+" :: ts => do
    let (t, ts) ← operand n ts
    some (t.positive, ts)
  | n + 1, .mark "~" :: ts => do
    let (_, ts) ← operand n ts
    some (.other, ts)
  | n + 1, .name "not" :: ts => do
    let (_, ts) ← operand n ts
    some (.other, ts)
  | n + 1, ts => do
    let (t, ts) ← atom n ts
    trailers n t ts

/-- Members, calls and indices. -/
def trailers : Nat → Term → Tokens → Option (Term × Tokens)
  | 0, _, _ => none
  | n + 1, _, .mark "." :: .name _ :: ts => trailers n .other ts
  | n + 1, _, .mark "(" :: ts => do
    let (_, _, ts) ← items n ")" ts
    trailers n .other ts
  | n + 1, _, .mark "[" :: ts => do
    let (xs, _, ts) ← items n "]" ts
    if xs.isEmpty then none else trailers n .other ts
  | _ + 1, t, ts => some (t, ts)

def atom : Nat → Tokens → Option (Term × Tokens)
  | 0, _ => none
  | _ + 1, .number n :: ts => some (.atom (.int n), ts)
  | _ + 1, .real x :: ts => some (.atom (.real x), ts)
  | _ + 1, .text s :: ts =>
    let (s, ts) := joinTexts s ts
    some (.atom (.text s), ts)
  | _ + 1, .name s :: ts => do
    let t ← named? s
    some (t, ts)
  | n + 1, .mark "(" :: ts => do
    let (xs, comma, ts) ← items n ")" ts
    match xs, comma with
    | [x], false => some (x, ts)
    | xs, _ => some (.tuple xs, ts)
  | n + 1, .mark "[" :: ts => do
    let (xs, _, ts) ← items n "]" ts
    some (.list xs, ts)
  | _ + 1, .mark "\x7b" :: .mark "\x7d" :: ts => some (.dict [], ts)
  | n + 1, .mark "\x7b" :: ts => do
    let (_, rest) ← expression n ts
    match rest with
    | .mark ":" :: _ => do
      let (es, rest) ← entryList n ts
      some (.dict es, rest)
    | .mark "," :: rest => do
      let (_, _, rest) ← items n "\x7d" rest
      some (.other, rest)
    | .mark "\x7d" :: rest => some (.other, rest)
    | _ => none
  | _ + 1, _ => none

/-- Expressions between commas up to a closing mark, and whether there is a comma. -/
def items : Nat → String → Tokens → Option (List Term × Bool × Tokens)
  | 0, _, _ => none
  | n + 1, close, ts =>
    match ts with
    | .mark m :: rest =>
      if m == close then some ([], false, rest) else itemsFrom n close ts
    | ts => itemsFrom n close ts

def itemsFrom : Nat → String → Tokens → Option (List Term × Bool × Tokens)
  | 0, _, _ => none
  | n + 1, close, ts => do
    let (t, ts) ← expression n ts
    match ts with
    | .mark "," :: ts => do
      let (xs, _, ts) ← items n close ts
      some (t :: xs, true, ts)
    | .mark m :: ts => if m == close then some ([t], false, ts) else none
    | _ => none

/-- The entries of a document up to its closing mark. -/
def entryList : Nat → Tokens → Option (List (Term × Term) × Tokens)
  | 0, _ => none
  | n + 1, ts => do
    let (k, ts) ← expression n ts
    match ts with
    | .mark ":" :: ts => do
      let (v, ts) ← expression n ts
      match ts with
      | .mark "," :: .mark "\x7d" :: ts => some ([(k, v)], ts)
      | .mark "," :: ts => do
        let (es, ts) ← entryList n ts
        some ((k, v) :: es, ts)
      | .mark "\x7d" :: ts => some ([(k, v)], ts)
      | _ => none
    | _ => none
end

/-- Expressions between commas up to the end of a text; more than one, or a comma, make a tuple. -/
def topLevel (n : Nat) (ts : Tokens) : Option Term :=
  match items n "" (ts ++ [.mark ""]) with
  | some ([], _, _) => none
  | some ([t], false, []) => some t
  | some (xs, _, []) => some (.tuple xs)
  | _ => none

def isLineBlank (c : Char) : Bool := c == ' ' || c == '\t'

/-- The text from its first line with a token on; that line must not be indented. A form feed ends
an indentation. -/
def fromFirstLine : Bool → List Char → Option (List Char)
  | _, [] => none
  | indented, c :: cs =>
    if c = '\n' ∨ c = '\x0c' then fromFirstLine false cs
    else if isLineBlank c then fromFirstLine true cs
    else if indented then none
    else some (c :: cs)

def dropLineEnds (ts : Tokens) : Tokens := (ts.reverse.dropWhile (· == .lineEnd)).reverse

/-- Whether a text ends in a line of its own that is an indentation and nothing more. -/
def endsIndented (cs : List Char) : Bool :=
  let last := cs.reverse.takeWhile (· != '\n')
  let startsLine := match cs.reverse.dropWhile (· != '\n') with
    | '\n' :: '\\' :: _ => false
    | '\n' :: _ => true
    | _ => false
  startsLine && last.all (fun c => isLineBlank c || c == '\x0c') && last.head?.any isLineBlank

/-- Reads the expression that a text is. -/
def term? (cs : List Char) : Option Term := do
  if cs.contains '\x00' then none
  let cs ← fromFirstLine false ((Text.lineFeeds cs).dropWhile isLineBlank)
  if endsIndented cs then none
  let ts ← tokens (cs.length + 1) 0 cs
  let ts := dropLineEnds ts
  topLevel (12 * ts.length + 24) ts

/-- Reads the value of a literal form. -/
def read (cs : List Char) : Except ReadError Value :=
  match term? cs with
  | some t => t.value
  | none => .error .noExpression

end DocQuery.Literal
