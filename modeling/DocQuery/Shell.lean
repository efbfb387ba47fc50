import DocQuery.Batch
import DocQuery.Schema
import DocQuery.Text.Case

namespace DocQuery.Shell

/-- What is printed, and what is printed as an error. -/
structure Streams where
  out : String
  err : String

def Streams.append (a b : Streams) : Streams := ⟨a.out ++ b.out, a.err ++ b.err⟩

instance : Append Streams := ⟨Streams.append⟩

def printed (s : String) : Streams := ⟨s, ""⟩

def logged (verbose : Bool) (s : String) : Streams :=
  if verbose then ⟨"", s!"[DEBUG] {s}\n"⟩ else ⟨"", ""⟩

/-- The schema in a file, or the message that it has none. A file that holds `null` has none, and
no message. -/
def schemaIn (files : Files) (path : String) : Option Value × String :=
  if !files.exists_ path then (none, s!"Error: Schema file '{path}' not found.\n")
  else
    match Schema.readJson files path with
    | .error (.json (.syntax_ e line column place)) =>
      let details := Json.ReadError.message (.syntax_ e line column place)
      (none, s!"Error: Invalid JSON schema format in '{path}'. Details: {details}\n")
    | .error e => (none, s!"Error reading schema file: {e.message}\n")
    | .ok .null => (none, "")
    | .ok v => (some v, "")

/-- The schema in use, and the path of its file. -/
structure State where
  schema : Value
  path : String

def setSchema : String := ":set schema "

/-- The path in a line that exchanges the schema. -/
def newPath? (line : String) : Option String :=
  if setSchema.toList.isPrefixOf line.toList then
    some (Text.strip (String.ofList (line.toList.drop setSchema.length)))
  else none

def exchange (files : Files) (s : State) (path : String) : State × Streams :=
  match schemaIn files path with
  | (some schema, _) => (⟨schema, path⟩, printed s!"Schema updated to: {path}\n")
  | (none, message) => (s, ⟨"", message⟩)

def results (answers : List String) : String := String.join (answers.map (· ++ "\n"))

/-- Answers a line; the shell ends at the words `exit` and `quit`. -/
def step (files : Files) (verbose : Bool) (s : State) (line : String) : Option (State × Streams) :=
  let line := Text.strip line
  if Text.lower line == "exit" || Text.lower line == "quit" then none
  else if line == "" then some (s, printed "")
  else if line == ":show schema" then some (s, printed s!"Current schema: {s.path}\n")
  else
    match newPath? line with
    | some path => some (exchange files s path)
    | none =>
      some (s, logged verbose s!"Input received: {line}" ++ printed (results (Batch.transpile s.schema line)))

def prompt : Streams := printed "sql2mongo> "

/-- What is printed when there are no more lines. -/
def farewell : Streams := printed "\nExiting shell...\n"

/-- Answers lines until the shell is left, or there are no more. -/
def loop (files : Files) (verbose : Bool) : State → List String → Streams
  | _, [] => prompt ++ farewell
  | s, line :: lines =>
    match step files verbose s line with
    | none => prompt
    | some (s, shown) => prompt ++ shown ++ loop files verbose s lines

def rule : String := String.ofList (List.replicate 53 '=') ++ "\n"

def banner : String :=
  rule ++ " SQL to MongoDB Transpiler - Interactive Shell\n Type 'exit' or 'quit' to close the shell.\n" ++ rule

end DocQuery.Shell
