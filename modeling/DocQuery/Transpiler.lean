import DocQuery.CommandLine
import DocQuery.Json.Write
import DocQuery.Shell
import DocQuery.Text.Ranges

namespace DocQuery.Transpiler

open CommandLine Shell

def schemaFlag : Flag := ⟨["--schema"], some "SCHEMA", "Path to JSON schema file", true⟩

def queryFlag : Flag := ⟨["--query"], some "QUERY", "Raw SQL string OR path to a .sql file", true⟩

def outputFlag : Flag :=
  ⟨["--output"], some "OUTPUT", "Path to save MongoDB query JSON (Optional)", false⟩

def prettyFlag : Flag := ⟨["--pretty"], none, "Pretty-print JSON output", false⟩

def verboseFlag : Flag := ⟨["--verbose"], none, "Print debug/log steps", false⟩

def transpileProgram : Program where
  name := "sql2mongo"
  usage := "usage: sql2mongo [-h] --schema SCHEMA --query QUERY [--output OUTPUT]\n                 [--pretty] [--verbose]\n"
  description := "SQL to MongoDB Transpiler CLI"
  epilog := "Examples:\n  sql2mongo --schema schema.json --query \"SELECT * FROM users\"\n  sql2mongo --schema schema.json --query query.sql --pretty --output result.json\n  sql2mongo shell --schema schema.json --verbose"
  flags := [schemaFlag, queryFlag, outputFlag, prettyFlag, verboseFlag]

def shellProgram : Program where
  name := "sql2mongo shell"
  usage := "usage: sql2mongo shell [-h] --schema SCHEMA [--pretty] [--verbose]\n"
  description := "Run in interactive shell mode"
  epilog := ""
  flags := [schemaFlag, prettyFlag, verboseFlag]

/-- What a run of the program leaves: its exit code, its output and the files. -/
structure Outcome where
  exit : Nat
  streams : Streams
  files : Files

/-- A run that has no outcome: an option for a path was given without a value. -/
inductive Failure where
  | noPath
deriving DecidableEq, Repr

def Failure.message : Failure → String
  | noPath => "stat: path should be string, bytes, os.PathLike or integer, not list"

/-- What the program is asked to do. -/
inductive Action where
  | shell (schema? : Option String) (verbose : Bool)
  | transpile (schema? query? output? : Option String) (verbose : Bool)
  | help (p : Program)
  | failed (p : Program) (e : Error)

def valueOf (given : Given) (f : Flag) : Option String := (given.lookup f.key).join

def isSet (given : Given) (f : Flag) : Bool := (given.lookup f.key).isSome

def actionOf (p : Program) (args : List String) (next : Given → Action) : Action :=
  match parse p args with
  | .help => .help p
  | .failed e => .failed p e
  | .parsed given => next given

/-- What is asked for by a command line. -/
def action : List String → Action
  | "shell" :: args =>
    actionOf shellProgram args (fun vs => .shell (valueOf vs schemaFlag) (isSet vs verboseFlag))
  | args =>
    actionOf transpileProgram args (fun vs =>
      .transpile (valueOf vs schemaFlag) (valueOf vs queryFlag) (valueOf vs outputFlag)
        (isSet vs verboseFlag))

/-- The text of a query: that of the file with this name, if there is one. -/
def queryText (files : Files) (verbose : Bool) (query : String) : Except String String × Streams :=
  if files.isFile query then
    let found := logged verbose s!"Query argument detected as file: {query}"
    match files.read query with
    | .ok cs =>
      (.ok (String.ofList cs), found ++ logged verbose s!"Read {cs.length} bytes from query file")
    | .error e =>
      (.error s!"Error: Failed to read query file '{query}'. Details: {e.message}\n", found)
  else (.ok query, logged verbose "Query argument detected as raw SQL string")

/-- The path of an option, which must have a value. -/
def pathOf : Option String → Except Failure String
  | some path => .ok path
  | none => .error .noPath

/-- Saves answers in a file, unless its name is empty. -/
def save (files : Files) (verbose : Bool) (output : String) (answers : List String) : Outcome :=
  if output == "" then ⟨0, printed "", files⟩
  else
    let saving := logged verbose s!"Saving output to: {output}"
    let text := (Json.render 4 (.list (answers.map .text))).toOption.getD ""
    match files.write output text with
    | .ok files => ⟨0, saving, files⟩
    | .error e =>
      ⟨1, saving ++ ⟨"", s!"Error: Failed to write to output file '{output}'. Details: {e.message}\n"⟩,
        files⟩

/-- Answers the statements of a query for a schema. -/
def answer (files : Files) (schema : Value) (query output : String) (verbose : Bool) : Outcome :=
  match queryText files verbose query with
  | (.error message, shown) => ⟨1, shown ++ ⟨"", message⟩, files⟩
  | (.ok text, shown) =>
    let answers := Batch.transpile schema text
    let saved := save files verbose output answers
    { saved with
      streams := shown ++ logged verbose s!"Transpiling query: {text}" ++
        printed (results answers) ++ saved.streams }

def Outcome.after (shown : Streams) (o : Outcome) : Outcome :=
  { o with streams := shown ++ o.streams }

/-- Transpiles a query. The query is not looked at if there is no schema. -/
def transpile (files : Files) (schema? query? output? : Option String) (verbose : Bool) :
    Except Failure Outcome := do
  let path ← pathOf schema?
  let loading := logged verbose s!"Loading schema from: {path}"
  match schemaIn files path with
  | (none, message) => return ⟨1, loading ++ ⟨"", message⟩, files⟩
  | (some schema, _) =>
    let query ← pathOf query?
    return (answer files schema query (output?.getD "") verbose).after loading

/-- Opens the shell, if there is a schema for it. -/
def openShell (files : Files) (schema : String) (verbose : Bool) : Option State × Streams :=
  let entering := logged verbose "Entering interactive shell mode"
  match schemaIn files schema with
  | (none, message) => (none, entering ++ ⟨"", message⟩)
  | (some v, _) => (some ⟨v, schema⟩, entering ++ printed banner)

def runShell (files : Files) (schema : String) (verbose : Bool) (input : String) : Outcome :=
  match openShell files schema verbose with
  | (none, shown) => ⟨1, shown, files⟩
  | (some s, shown) =>
    ⟨0, shown ++ loop files verbose s ((Text.lines input.toList).map String.ofList), files⟩

/-- Runs the program in a directory of files, with its arguments and its input. -/
def run (files : Files) (args : List String) (input : String) : Except Failure Outcome :=
  match action args with
  | .help p => .ok ⟨0, printed p.helpText, files⟩
  | .failed p e => .ok ⟨2, ⟨"", p.errorText e⟩, files⟩
  | .shell schema? verbose => do return runShell files (← pathOf schema?) verbose input
  | .transpile schema? query? output? verbose => transpile files schema? query? output? verbose

end DocQuery.Transpiler
