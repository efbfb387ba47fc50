import DocQuery.Pipeline
import DocQuery.Text.Ranges

namespace DocQuery.Batch

/-- Drops every comment: two dashes and what follows on the line. -/
def dropComments (inComment : Bool) : List Char → List Char
  | [] => []
  | c :: cs =>
    if c = '\n' then c :: dropComments false cs
    else if inComment then dropComments true cs
    else
      match c, cs with
      | '-', '-' :: _ => dropComments true cs
      | _, _ => c :: dropComments false cs

/-- The parts of a text between the semicolons. -/
def splitAtSemicolons : List Char → List (List Char)
  | [] => [[]]
  | c :: cs =>
    match splitAtSemicolons cs with
    | p :: ps => if c = ';' then [] :: p :: ps else (c :: p) :: ps
    | [] => [[c]]

/-- The statements of a text, each without comments and outer white space and with a semicolon at
its end. -/
def statements (text : String) : List String :=
  (splitAtSemicolons (dropComments false text.toList)).filterMap (fun part =>
    let part := Text.trim part
    if part.isEmpty then none else some (String.ofList (part ++ [';'])))

/-- The text of the simplified command of a statement, or of its failure. -/
def answer (schema : Value) (sql : String) (line : Nat) : String :=
  let result : Except Failure Value := do
    Pipeline.simplify (← Pipeline.command schema sql line)
  match result with
  | .error e => "Error: " ++ e.message
  | .ok command =>
    match Pipeline.textOf command with
    | some (.text s) => s
    | _ => ""

/-- Answers statements one by one; lines are counted over all of them. -/
def answers (schema : Value) : Nat → List String → List String
  | _, [] => []
  | line, s :: ss => answer schema s line :: answers schema (Sql.lineAfter s line) ss

/-- Transpiles all statements of a text. -/
def transpile (schema : Value) (text : String) : List String := answers schema 1 (statements text)

end DocQuery.Batch
