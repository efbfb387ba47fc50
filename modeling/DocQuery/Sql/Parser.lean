import DocQuery.Sql.Scan
import DocQuery.Sql.Syntax

namespace DocQuery.Sql

abbrev Lexemes := List Lexeme

abbrev Reader (α : Type) := Lexemes → Except Nat (α × Lexemes)

namespace Read

def stuck (ls : Lexemes) : Except Nat α := .error ls.length

/-- Items after commas; each takes at least one lexeme. -/
def moreItems (item : Reader α) : Nat → Reader (List α)
  | n + 1, .symbol .comma :: ls => do
    let (x, ls) ← item ls
    let (xs, ls) ← moreItems item n ls
    return (x :: xs, ls)
  | _, ls => .ok ([], ls)

def symbol (s : Symbol) : Reader Unit
  | .symbol t :: ls => if t = s then .ok ((), ls) else stuck (.symbol t :: ls)
  | ls => stuck ls

def keyword (k : Keyword) : Reader Unit
  | .keyword j w :: ls => if j = k then .ok ((), ls) else stuck (.keyword j w :: ls)
  | ls => stuck ls

def identifier : Reader String
  | .identifier a :: ls => .ok (a, ls)
  | ls => stuck ls

def columnRef : Reader ColumnRef
  | .identifier a :: .symbol .dot :: ls => do
    let (b, ls) ← identifier ls
    return (⟨some a, b⟩, ls)
  | .identifier a :: ls => .ok (⟨none, a⟩, ls)
  | ls => stuck ls

def literal : Reader Literal
  | .number n :: ls => .ok (.number n, ls)
  | .text s :: ls => .ok (.text s, ls)
  | ls => stuck ls

/-- The argument of an aggregate; only a count takes a star. -/
def argument (f : Func) : Reader Aggregate
  | .symbol .star :: ls =>
    if f = .count then do
      let ((), ls) ← symbol .rparen ls
      return (.countAll, ls)
    else stuck (.symbol .star :: ls)
  | ls => do
    let (c, ls) ← identifier ls
    let ((), ls) ← symbol .rparen ls
    return (.call f c, ls)

def aggregate : Reader Aggregate
  | .keyword k w :: ls =>
    match Func.ofKeyword? k with
    | some f => do
      let ((), ls) ← symbol .lparen ls
      argument f ls
    | none => stuck (.keyword k w :: ls)
  | ls => stuck ls

def selectItem : Reader SelectItem
  | .keyword k w :: ls => do
    let (a, ls) ← aggregate (.keyword k w :: ls)
    return (.aggregate a, ls)
  | ls => do
    let (c, ls) ← columnRef ls
    return (.column c, ls)

def selectList : Reader SelectList
  | .symbol .star :: ls => .ok (.all, ls)
  | ls => do
    let (x, ls) ← selectItem ls
    let (xs, ls) ← moreItems selectItem ls.length ls
    return (.items x xs, ls)

def operand : Reader Operand
  | .identifier a :: ls => do
    let (c, ls) ← columnRef (.identifier a :: ls)
    return (.column c, ls)
  | ls => do
    let (l, ls) ← literal ls
    return (.literal l, ls)

def relation : Reader Relation
  | .symbol s :: ls =>
    match Relation.ofSymbol? s with
    | some r => .ok (r, ls)
    | none => stuck (.symbol s :: ls)
  | ls => stuck ls

/-- What follows the word for membership: a subquery or a list of literals, in parentheses. -/
def members (subquery : Reader Query) (c : ColumnRef) (ls : Lexemes) :
    Except Nat (Condition × Lexemes) := do
  let ((), ls) ← symbol .lparen ls
  match ls with
  | .keyword .select _ :: _ => do
    let (q, ls) ← subquery ls
    let ((), ls) ← symbol .rparen ls
    return (.inQuery c q, ls)
  | ls => do
    let (l, ls) ← literal ls
    let (more, ls) ← moreItems literal ls.length ls
    let ((), ls) ← symbol .rparen ls
    return (.inList c l more, ls)

/-- One comparison. A range is tested of an unqualified column only. -/
def comparison (subquery : Reader Query) : Reader Condition
  | .identifier a :: .keyword .between _ :: ls => do
    let (low, ls) ← literal ls
    let ((), ls) ← keyword .andWord ls
    let (high, ls) ← literal ls
    return (.between a low high, ls)
  | .identifier a :: ls => do
    let (c, ls) ← columnRef (.identifier a :: ls)
    match ls with
    | .keyword .inWord _ :: ls => members subquery c ls
    | ls => do
      let (r, ls) ← relation ls
      let (x, ls) ← operand ls
      return (.compare c r x, ls)
  | ls => do
    let (a, ls) ← aggregate ls
    let (r, ls) ← relation ls
    let (l, ls) ← literal ls
    return (.aggregate a r l, ls)

/-- Comparisons joined to the left, with no precedence between the connectives. -/
def connected (term : Reader Condition) : Nat → Condition → Reader Condition
  | n + 1, c, .keyword .andWord w :: ls => do
    let (d, ls) ← term ls
    connected term n (.connect c w d) ls
  | n + 1, c, .keyword .orWord w :: ls => do
    let (d, ls) ← term ls
    connected term n (.connect c w d) ls
  | _, c, ls => .ok (c, ls)

def condition (subquery : Reader Query) (ls : Lexemes) : Except Nat (Condition × Lexemes) := do
  let (c, ls) ← comparison subquery ls
  connected (comparison subquery) ls.length c ls

/-- A list of tables after a first one. A join before a comma leaves its tables only. -/
def tablesAfter (first : Source Condition) : List String → Source Condition
  | [] => first
  | t :: ts =>
    match first with
    | .table a => .tables a t ts
    | .join a b _ => .tables a b (t :: ts)
    | .tables a b more => .tables a b (more ++ t :: ts)

def source (subquery : Reader Query) (ls : Lexemes) : Except Nat (Source Condition × Lexemes) := do
  let (a, ls) ← identifier ls
  let (first, ls) ← match ls with
    | .keyword .join _ :: ls => do
      let (b, ls) ← identifier ls
      let ((), ls) ← keyword .on ls
      let (c, ls) ← condition subquery ls
      pure (.join a b c, ls)
    | ls => pure (.table a, ls)
  let (ts, ls) ← moreItems identifier ls.length ls
  return (tablesAfter first ts, ls)

def optional (k : Keyword) (body : Reader α) : Reader (Option α)
  | .keyword j w :: ls =>
    if j = k then do
      let (x, ls) ← body ls
      return (some x, ls)
    else .ok (none, .keyword j w :: ls)
  | ls => .ok (none, ls)

def columnNames (ls : Lexemes) : Except Nat (List String × Lexemes) := do
  let ((), ls) ← keyword .byWord ls
  let (x, ls) ← identifier ls
  let (xs, ls) ← moreItems identifier ls.length ls
  return (x :: xs, ls)

def direction : Reader Direction
  | .keyword .asc _ :: ls => .ok (.asc, ls)
  | .keyword .desc _ :: ls => .ok (.desc, ls)
  | ls => .ok (.asc, ls)

/-- An ordering by a column, or by an aggregate under its alias. -/
def orderItem : Reader OrderItem
  | .identifier c :: ls => do
    let (d, ls) ← direction ls
    return (⟨c, d⟩, ls)
  | ls => do
    let (a, ls) ← aggregate ls
    let (d, ls) ← direction ls
    return (⟨a.alias, d⟩, ls)

def orderItems (ls : Lexemes) : Except Nat (List OrderItem × Lexemes) := do
  let ((), ls) ← keyword .byWord ls
  let (x, ls) ← orderItem ls
  let (xs, ls) ← moreItems orderItem ls.length ls
  return (x :: xs, ls)

def number : Reader Nat
  | .number n :: ls => .ok (n, ls)
  | ls => stuck ls

/-- A statement without what ends it. -/
def statement (subquery : Reader Query) (ls : Lexemes) : Except Nat (Query × Lexemes) := do
  let ((), ls) ← keyword .select ls
  let (items, ls) ← selectList ls
  let ((), ls) ← keyword .fromWord ls
  let (source, ls) ← source subquery ls
  let (condition, ls) ← optional .whereWord (condition subquery) ls
  let (groupBy, ls) ← optional .group columnNames ls
  let (having, ls) ← optional .having (Read.condition subquery) ls
  let (orderBy, ls) ← optional .order orderItems ls
  let (limit, ls) ← optional .limit number ls
  return (⟨items, source, condition, groupBy.getD [], having, orderBy.getD [], limit⟩, ls)

/-- Statements with subqueries nested to at most the given depth. -/
def nested : Nat → Reader Query
  | 0 => stuck
  | depth + 1 => statement (nested depth)

end Read

/-- Reads a whole statement. Each level of nesting takes a lexeme, so that their number bounds the
depth. -/
def Query.ofLexemes (ls : Lexemes) : Except Nat Query := do
  let (q, ls) ← Read.nested (ls.length + 1) ls
  let ((), ls) ← Read.symbol .semicolon ls
  if ls.isEmpty then return q else Read.stuck ls

/-- Why a text is no statement. -/
inductive ParseError where
  | scan (e : ScanError)
  | unexpected (t : Token)
  | unexpectedEnd
deriving DecidableEq, Repr

def ParseError.message : ParseError → String
  | scan e => e.message
  | unexpected t => s!"Syntax error at '{t.lexeme.value}', line {t.line}"
  | unexpectedEnd => "Syntax error at EOF"

/-- The failure of a scan that ended too soon. -/
def Scan.atEnd (s : Scan) : ParseError :=
  match s.error? with
  | some e => .scan e
  | none => .unexpectedEnd

/-- The tokens are read one by one: a failure of the scanner counts if the tokens before it are all
read. -/
def Scan.parse (s : Scan) : Except ParseError Query :=
  match Query.ofLexemes (s.tokens.map (·.lexeme)) with
  | .ok q =>
    match s.error? with
    | some e => .error (.scan e)
    | none => .ok q
  | .error left =>
    match s.tokens.drop (s.tokens.length - left) with
    | t :: _ => .error (.unexpected t)
    | [] => .error s.atEnd

/-- The line reached by a parse: that of the token at fault, else that of the end of the scan. -/
def Scan.lineAfter (s : Scan) : Nat :=
  match s.parse with
  | .error (.unexpected t) => t.line
  | _ => s.finish.line

/-- Parses a text whose first line has the given number. -/
def parse (text : String) (line : Nat) : Except ParseError Query := (scan text line).parse

def lineAfter (text : String) (line : Nat) : Nat := (scan text line).lineAfter

end DocQuery.Sql
