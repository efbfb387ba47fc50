import DocQuery.Compare
import DocQuery.Pipeline
import DocQuery.Text.Numeral
import DocQuery.Text.Ranges
import DocQuery.Upload

namespace DocQuery.Service

/-- Variables that are set. -/
abbrev Environment := List (String × String)

/-- The lines that the parser has counted, and whether the document database is connected. -/
structure State where
  line : Nat
  connected : Bool

def start : State := ⟨1, false⟩

/-- The databases as a request finds them: their results, or the texts of their failures. -/
structure Backend where
  rows : List Value
  columns : List Value
  documents : List Value
  rowError? : Option String
  documentError? : Option String

def variable_ (env : Environment) (name : String) : Value :=
  ((env.lookup name).map Value.text).getD .null

/-- The options of a connection for rows. -/
def rowOptions (env : Environment) : Value :=
  .doc [("dbname", variable_ env "PG_DB"), ("user", variable_ env "PG_USER"),
    ("password", variable_ env "PG_PASSWORD"), ("host", variable_ env "PG_HOST"),
    ("port", .text ((env.lookup "PG_PORT").getD "5432"))]

/-- Connects to the document database once; the place where it is must be set. -/
def connect (env : Environment) (s : State) : Except String State × List Call :=
  if s.connected then (.ok s, [])
  else
    match env.lookup "MONGO_URI" with
    | none | some "" => (.error "MONGO_URI not set", [])
    | some uri =>
      (.ok { s with connected := true },
        [.client uri (.doc [("serverSelectionTimeoutMS", .int 5000)])])

/-- Makes calls; a failing database takes the first one only. -/
def callDocuments (b : Backend) (calls : List Call) : Except String (List Value) × List Call :=
  match b.documentError? with
  | some message => (.error message, calls.take 1)
  | none => (.ok b.documents, calls)

/-- Runs a statement on the rows. -/
def runRows (env : Environment) (b : Backend) (sql : String) : Except String Unit × List Call :=
  match b.rowError? with
  | some message => (.error message, [.connect (rowOptions env)])
  | none => (.ok (), [.connect (rowOptions env), .query sql, .close])

/-- Runs a command on the documents. -/
def runDocuments (env : Environment) (b : Backend) (s : State) (command : Value) :
    Except String (List Value) × State × List Call :=
  match connect env s with
  | (.error message, calls) => (.error message, s, calls)
  | (.ok s, calls) =>
    match Call.ofCommand command with
    | .error f => (.error f.message, s, calls)
    | .ok made =>
      let (result, made) := callDocuments b made
      (result, s, calls ++ made)

/-- The answer with both results, documents without their keys. -/
def answer (command : Value) (b : Backend) (documents : List Value) : Except Fault Response := do
  let documents ← documents.mapM (fun d => do return Value.dict (← Compare.withoutId d))
  let rows ← b.rows.mapM (fun row => do return Value.list (← row.items))
  return ⟨200, .doc [("mongo", (Pipeline.textOf command).getD .null), ("columns", .list b.columns),
    ("sql_result", .list rows), ("mongo_result", .list documents)]⟩

def runCommand (env : Environment) (b : Backend) (s : State) (sql : String) (command : Value) :
    Response × State × List Call :=
  match runRows env b sql with
  | (.error message, calls) => (failed 500 s!"Postgres error: {message}", s, calls)
  | (.ok (), calls) =>
    match runDocuments env b s command with
    | (.error message, s, more) => (failed 500 s!"Mongo error: {message}", s, calls ++ more)
    | (.ok documents, s, more) =>
      match answer command b documents with
      | .ok r => (r, s, calls ++ more)
      | .error f => (failed 500 f.message, s, calls ++ more)

/-- The statement and the schema of a request. -/
def request (body : Value) : Except Fault (String × Value) := do
  let es ← body.asDict "get"
  let sql ← ((Entries.get? es (.text "sql")).getD (.text "")).asText "strip"
  return (Text.strip sql, Entries.field es "schema")

/-- Translates a statement and runs it. -/
def runStatement (env : Environment) (b : Backend) (s : State) (sql : String) (schema : Value) :
    Response × State × Report :=
  let shown := Report.print s!"[SQL] {sql}\n"
  let next := { s with line := Sql.lineAfter sql s.line }
  match Pipeline.command schema sql s.line with
  | .error e => (failed 500 e.message, next, shown)
  | .ok command =>
    let shown := shown ++ .print ("[MONGO] " ++ command.str.toOption.getD "" ++ "\n")
    let (r, next, calls) := runCommand env b next sql command
    (r, next, shown ++ .call calls)

/-- Answers a request to run a statement. -/
def run (env : Environment) (b : Backend) (s : State) (body : Value) : Response × State × Report :=
  if !body.present then (failed 400 "No JSON received", s, .print "")
  else
    match request body with
    | .error f => (failed 500 f.message, s, .print "")
    | .ok (sql, schema) =>
      if sql == "" || !schema.present then (failed 400 "Missing sql or schema", s, .print "")
      else runStatement env b s sql schema

/-- Searches documents. -/
def search (env : Environment) (b : Backend) (s : State) (collection filter projection : Value) :
    Except String (List Value) × State × List Call :=
  match connect env s with
  | (.error message, calls) => (.error message, s, calls)
  | (.ok s, calls) =>
    let (result, made) := callDocuments b [.find collection filter projection]
    (result, s, calls ++ made)

/-- The number under which the service is offered. -/
def listening (env : Environment) : Except Text.NumeralError Int :=
  match env.lookup "PORT" with
  | none => .ok 5000
  | some s => Text.readInt s

/-- Starts the service. -/
def serve (env : Environment) : Report × Option Text.NumeralError :=
  let ready := Report.print "Pre-warming parser...\nParser ready.\n"
  match listening env with
  | .error e => (ready, some e)
  | .ok n =>
    (ready ++ .call [.serve (.doc [("host", .text "0.0.0.0"), ("port", .int n), ("debug", .bool true)])],
      none)

/-- The settings of the server that runs the service. -/
structure Settings where
  workers : Nat
  workerClass : String
  timeout : Nat
  preload : Bool
  bind : String

def settings (env : Environment) : Settings :=
  ⟨1, "sync", 300, true, "0.0.0.0:" ++ (env.lookup "PORT").getD "10000"⟩

/-- What is printed before the server starts. -/
def starting : String :=
  ">>> Pre-warming parser (runs once before workers fork)...\n>>> Parser ready!\n"

end DocQuery.Service
