import DocQuery.Check.Select
import DocQuery.Command.Attempt
import DocQuery.Command.Translate
import DocQuery.Sql.Parser
import DocQuery.Sql.Tree

namespace DocQuery

/-- A tree or a command, with the number of the statement that it comes from. -/
structure Slot where
  name : String
  value : Value
  statement : Nat

/-- The scanner and the parser count lines on their own; `parsed` counts the statements. -/
structure Session where
  scanner : Sql.Scanner
  line : Nat
  schema : Value
  base? : Option Value
  slots : List Slot
  parsed : Nat

namespace Session

def start (schema : Value) : Session := ⟨.fresh, 1, schema, none, [], 0⟩

inductive Request where
  | lex (sql : String)
  | input (sql : String)
  | token
  | parse (sql slot : String)
  | schema (v : Value)
  | check (slot : String)
  | print (slot : String)
  | translate (slot target : String)
  | simplify (slot : String)
  | filter (condition : Value)

/-- What a request answers. -/
inductive Reply where
  | scanned (s : Sql.Scan) (line : Nat)
  | given (line : Nat)
  | next (a : Sql.Scanner.Answer) (line : Nat)
  | parsed (r : Except Sql.ParseError Value) (line : Nat)
  | changed
  | checked (c : Check.Checked Value)
  | printed (r : Except Fault String)
  | translated (r : Except Command.Error Value) (base? : Option Value)
  | simplified (r : Except Fault Value)
  | filtered (r : Except Command.Error Value) (base? : Option Value)
  | noSlot
  | noTree (base? : Option Value)

def get? (s : Session) (name : String) : Option Slot := s.slots.find? (fun t => t.name == name)

/-- Stores a slot in the place of the one with its name. -/
def store (s : Session) (slot : Slot) : Session :=
  { s with slots := slot :: s.slots.filter (fun t => t.name != slot.name) }

def storeResult (s : Session) (name : String) (statement : Nat) : Except ε Value → Session
  | .ok v => s.store ⟨name, v, statement⟩
  | .error _ => s

def parse (s : Session) (sql slot : String) : Session × Reply :=
  let result : Except Sql.ParseError Value := (Sql.parse sql s.line).map (·.toValue)
  let s := { s with line := Sql.lineAfter sql s.line, parsed := s.parsed + 1 }
  (s.storeResult slot s.parsed result, .parsed result s.line)

/-- The noted rest of a condition is a part of the condition, and is seen as that is now. -/
def withNotes (tree : Value) : Value :=
  match tree with
  | .select q =>
    match q.filter?, Check.splitJoin q.condition with
    | some f, .ok (_, some rest) =>
      if f.present then .select { q with filter? := some rest } else tree
    | _, _ => tree
  | v => v

/-- A slot of a statement after its shared identifier has changed. -/
def withShared (new : Value) (slot : Slot) : Slot :=
  match slot.value with
  | .select q =>
    match q.condition with
    | .logical (.comparison i o (.dict es)) w r =>
      if o.same (.text "=") && Command.isIdentifier es then
        { slot with value := .select { q with condition := .logical (.comparison i o new) w r } }
      else slot
    | _ => slot
  | .dict es =>
    match Entries.get? es (.text "filter") with
    | some f =>
      { slot with
        value := Command.setEntry "filter" (Command.exchangeIdentifier new f) (.dict es) }
    | none => slot
  | _ => slot

/-- The identifier that a command shares with its statement, after an attempt to simplify it. -/
def sharedAfter? : Value → Option Value
  | .dict es => do
    let filter ← Entries.get? es (.text "filter")
    let _ ← Command.comparedIdentifier? filter
    Command.comparedIdentifier? (Command.filterAfter filter)
  | _ => none

/-- Shows a changed identifier in all slots of a statement. -/
def share (s : Session) (statement : Nat) : Option Value → Session
  | some new =>
    { s with
      slots := s.slots.map (fun t => if t.statement == statement then withShared new t else t) }
  | none => s

/-- Simplifies a command in its slot. -/
def simplify (s : Session) (slot : Slot) : Session × Reply :=
  let result := Command.simplify slot.value
  let value := match result with
    | .ok v => v
    | .error _ => Command.residue slot.value
  ((s.store { slot with value }).share slot.statement (sharedAfter? slot.value), .simplified result)

def step (s : Session) : Request → Session × Reply
  | .lex sql =>
    let (result, scanner) := s.scanner.tokenize sql
    ({ s with scanner }, .scanned result scanner.line)
  | .input sql =>
    let scanner := s.scanner.input sql
    ({ s with scanner }, .given scanner.line)
  | .token =>
    let (answer, scanner) := s.scanner.token
    ({ s with scanner }, .next answer scanner.line)
  | .parse sql slot => s.parse sql slot
  | .schema v => ({ s with schema := v }, .changed)
  | .check slot =>
    match s.get? slot with
    | none => (s, .noSlot)
    | some t =>
      let checked := Check.check s.schema t.value
      let checked := { checked with tree := withNotes checked.tree }
      (s.store { t with value := checked.tree }, .checked checked)
  | .print slot =>
    match s.get? slot with
    | none => (s, .noSlot)
    | some t => (s, .printed t.value.repr)
  | .translate slot target =>
    match s.get? slot with
    | none => (s, .noTree s.base?)
    | some t =>
      let result := Command.translate t.value
      let s := { s with base? := Command.baseAfter s.base? t.value }
      (s.storeResult target t.statement result, .translated result s.base?)
  | .simplify slot =>
    match s.get? slot with
    | none => (s, .noSlot)
    | some t => s.simplify t
  | .filter condition => (s, .filtered (Command.filter s.base? condition) s.base?)

/-- Answers requests in order. -/
def run (s : Session) : List Request → List Reply
  | [] => []
  | r :: rs =>
    let (s, reply) := s.step r
    reply :: run s rs

end Session

end DocQuery
