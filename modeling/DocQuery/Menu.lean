import DocQuery.Compare
import DocQuery.Pipeline
import DocQuery.Schema
import DocQuery.Text.Ranges

namespace DocQuery.Menu

def line (s : String) : String := s ++ "\n"

def printLine (s : String) : Report := .print (line s)

/-- A value in printed text. -/
def shown (v : Value) : String := v.str.toOption.getD ""

def tokenLine (t : Sql.Token) : String :=
  line s!"Token(type='{t.lexeme.className}', value='{t.lexeme.value}')"

def scanFailure (e : Sql.ScanError) : String :=
  match e with
  | .illegal .. => line s!"Lexical Error: {e.message}"
  | .longNumeral _ => line s!"Error: {e.message}"

/-- The tokens of a text. -/
def tokens (sql : String) : Report :=
  let s := Sql.scan sql 1
  printLine s!"\n[Lexer Output] Processing: {sql}" ++
    match s.error? with
    | some e => .print (scanFailure e)
    | none => .print (String.join (s.tokens.map tokenLine))

def failureLine (e : Failure) : String := line s!"{e.label}: {e.message}"

/-- The tree of a statement. -/
def tree (sql : String) : Report :=
  printLine s!"\n[Parser Output] Processing: {sql}" ++
    match Pipeline.parse sql 1 with
    | .ok v => printLine (shown v)
    | .error e => .print (failureLine e)

def commandText (command : Value) : String := ((Pipeline.textOf command).map shown).getD ""

/-- The command of a statement. -/
def command (schema : Value) (sql : String) : Report :=
  printLine s!"\n[Full Pipeline] Processing: {sql}" ++
    match Pipeline.parse sql 1 >>= Pipeline.check schema with
    | .error e => .print (failureLine e)
    | .ok tree => printLine "Query is semantically valid." ++
      match Pipeline.translate tree with
      | .error e => .print (failureLine e)
      | .ok c => printLine "MongoDB Query:" ++ printLine (commandText c)

def entryLine (name : String) (v : Value) : String := line s!"{name}: {shown v}"

/-- What a command asks for. -/
def commandParts (es : Entries) : String :=
  match Entries.get? es (.text "pipeline") with
  | some pipeline => entryLine "Pipeline" pipeline
  | none =>
    entryLine "Filter" (Entries.field es "filter") ++
      entryLine "Projection" (Entries.field es "projection")

/-- Runs a command and its statement, and shows both results. -/
def runCommand (db : Database) (sql : String) (command : Value) : Except Fault Report := do
  let es ← command.asDict "get"
  let calls ← Call.ofCommand command
  return printLine "\nParsed Mongo:" ++
    .print (entryLine "Collection" (Entries.field es "collection") ++ commandParts es) ++
    .call (calls ++ [.query sql]) ++
    .print (entryLine "\nSQL Result" (.list db.rows) ++ entryLine "\nMongo Result" (.list db.documents)) ++
    printLine "\n================ DEBUG INFO ================" ++
    printLine s!"SQL rows count: {db.rows.length}" ++
    printLine s!"Mongo docs count: {db.documents.length}"

def runOrFail (db : Database) (sql : String) (command : Value) : Report :=
  match runCommand db sql command with
  | .ok r => r
  | .error f => printLine s!"Error: {f.message}"

def generated (command : Value) : Report :=
  printLine "\nGenerated Mongo Query:" ++ printLine (commandText command)

/-- Runs a statement. -/
def execute (db : Database) (schema : Value) (sql : String) : Report :=
  printLine s!"\n[Execution Mode] Processing: {sql}" ++
    match Pipeline.command schema sql 1 with
    | .error e => printLine s!"Error: {e.message}"
    | .ok c => generated c ++ runOrFail db sql c

def stage (before after : Value) : Report :=
  printLine "\n--- Optimization Stage ---" ++ printLine s!"Before: {commandText before}" ++
    printLine s!"After : {commandText after}" ++ printLine "\n--------------------------"

/-- Runs a statement by its simplified command. If that cannot be had, nothing is run. -/
def executeSimplified (db : Database) (schema : Value) (sql : String) : Report :=
  printLine s!"\n[Execution + Optimization Mode] Processing: {sql}" ++
    match Pipeline.command schema sql 1 with
    | .error e => .print (failureLine e)
    | .ok c => generated c ++
      match Command.simplify c with
      | .ok simple => stage c simple ++ runOrFail db sql simple
      | .error f =>
        printLine s!"⚠️ Optimization failed: {f.message}" ++
          printLine "Error: name 'mongo_query' is not defined"

/-- What comes after an action: more input, the end of the menu, or no input where some is
needed. -/
inductive Next where
  | go (input : List String)
  | exit
  | endOfInput

structure Turn where
  report : Report
  next : Next

def Turn.after (t : Turn) (r : Report) : Turn := { t with report := r ++ t.report }

def turn (r : Report) (input : List String) : Turn := ⟨r, .go input⟩

/-- Asks for a line. -/
def ask (prompt : String) (input : List String) (use : String → List String → Turn) : Turn :=
  match input with
  | [] => ⟨.print prompt, .endOfInput⟩
  | l :: rest => (use (Text.strip l) rest).after (.print prompt)

def askSql (empty : String) (action : String → Report) (input : List String) : Turn :=
  ask "\nEnter SQL Query: " input (fun sql rest =>
    if sql == "" then turn (.print empty) rest else turn (action sql) rest)

def emptyInput : String := line "Error: Empty input"

def defaultSchema : String := "schema.json"

/-- Loads a schema. An empty one leads back to the menu. -/
def loadSchema (files : Files) (path : String) (input : List String)
    (use : Value → List String → Turn) : Turn :=
  match Schema.load files path with
  | .error e => turn (printLine s!"Schema Error: {e.message}") input
  | .ok schema =>
    let loaded := printLine "Schema loaded successfully."
    if schema.present then (use schema input).after loaded else turn loaded input

/-- Asks for a schema: the default one, or one in a file that is asked for. -/
def askSchema (files : Files) (input : List String) (use : Value → List String → Turn) : Turn :=
  let options := line "\nSchema Options:" ++ line "1. Use default schema (schema.json)" ++
    line "2. Load custom schema file" ++ "Enter choice: "
  ask options input (fun choice rest =>
    match choice with
    | "1" =>
      if files.exists_ defaultSchema then loadSchema files defaultSchema rest use
      else turn (printLine s!"Schema Error: Default schema file '{defaultSchema}' not found.") rest
    | "2" => ask "Enter path to schema JSON file: " rest (fun path rest =>
        loadSchema files path rest use)
    | _ => turn (printLine "Invalid choice. Returning to main menu.") rest)

/-- The action for a choice. -/
def act (files : Files) (db : Database) (choice : String) (input : List String) : Turn :=
  match choice with
  | "1" => askSql emptyInput tokens input
  | "2" => askSql emptyInput tree input
  | "3" => askSchema files input (fun schema => askSql emptyInput (command schema))
  | "4" => askSchema files input (fun schema => askSql "" (execute db schema))
  | "5" => askSchema files input (fun schema => askSql "" (executeSimplified db schema))
  | "6" => ⟨printLine "Exiting...", .exit⟩
  | _ => turn (printLine "Invalid choice. Please try again.") input

def rule : String := line (String.ofList (List.replicate 40 '='))

def choices : String :=
  line "" ++ rule ++ line " SQL to MongoDB Transpiler" ++ rule ++ line "1. Lexical Analysis (Tokens)" ++
    line "2. Syntax Analysis (AST)" ++ line "3. Full Pipeline" ++ line "4. Execute + Validate " ++
    line "5. Execute + Optimization" ++ line "6.Exit" ++ rule

/-- Runs the menu; every turn takes a line. The flag tells whether input was missing. -/
def loop (files : Files) (db : Database) : Nat → List String → Report × Bool
  | 0, _ => (.print "", true)
  | n + 1, input =>
    let t := ask (choices ++ "Enter choice: ") input (act files db)
    match t.next with
    | .exit => (t.report, false)
    | .endOfInput => (t.report, true)
    | .go rest =>
      let (r, ended) := loop files db n rest
      (t.report ++ r, ended)

/-- Runs the menu on the lines of a text. -/
def run (files : Files) (db : Database) (input : String) : Report × Bool :=
  let lines := (Text.lines input.toList).map String.ofList
  loop files db (lines.length + 1) lines

end DocQuery.Menu
