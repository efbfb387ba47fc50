import DocQuery.Check.Select
import DocQuery.Command.Simplify
import DocQuery.Command.Translate
import DocQuery.Sql.Parser
import DocQuery.Sql.Tree

namespace DocQuery

inductive Failure where
  | parse (e : Sql.ParseError)
  | check (e : Check.Error)
  | translate (e : Command.Error)
  | simplify (f : Fault)
deriving DecidableEq, Repr

def Failure.message : Failure → String
  | parse e => e.message
  | check e => e.message
  | translate e => e.message
  | simplify f => f.message

/-- The word for the kind of a failure. -/
def Failure.label : Failure → String
  | parse (.scan _) => "Error"
  | parse _ => "Syntax Error"
  | check (.fault _) => "Error"
  | check _ => "Semantic Error"
  | _ => "Error"

namespace Pipeline

/-- The tree of a statement whose first line has the given number. -/
def parse (sql : String) (line : Nat) : Except Failure Value :=
  match Sql.parse sql line with
  | .ok q => .ok q.toValue
  | .error e => .error (.parse e)

/-- The tree with the notes of an accepted check. -/
def check (schema tree : Value) : Except Failure Value :=
  let checked := Check.check schema tree
  match checked.outcome with
  | .ok () => .ok checked.tree
  | .error e => .error (.check e)

def translate (tree : Value) : Except Failure Value :=
  (Command.translate tree).mapError .translate

def simplify (command : Value) : Except Failure Value :=
  (Command.simplify command).mapError .simplify

/-- The command of a statement, before it is simplified. -/
def command (schema : Value) (sql : String) (line : Nat) : Except Failure Value := do
  translate (← check schema (← parse sql line))

/-- What the stages give, as far as they are reached. -/
structure Run where
  tree? : Option Value := none
  command? : Option Value := none
  simple? : Option Value := none
  failure? : Option Failure := none

def run (schema : Value) (sql : String) (line : Nat) : Run :=
  match parse sql line with
  | .error e => { failure? := some e }
  | .ok tree =>
    match check schema tree with
    | .error e => { failure? := some e }
    | .ok tree =>
      match translate tree with
      | .error e => { tree? := some tree, failure? := some e }
      | .ok command =>
        match simplify command with
        | .error e => { tree? := some tree, command? := some command, failure? := some e }
        | .ok simple => { tree? := some tree, command? := some command, simple? := some simple }

/-- The text of a command. -/
def textOf : Value → Option Value
  | .dict es => Entries.get? es (.text "string")
  | _ => none

end Pipeline

end DocQuery
