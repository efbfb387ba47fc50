import DocQuery.Files
import DocQuery.Json.Read

namespace DocQuery.Schema

/-- Why a file holds no JSON. -/
inductive FileError where
  | file (e : Files.Error)
  | json (e : Json.ReadError)
deriving DecidableEq, Repr

def FileError.message : FileError → String
  | file e => e.message
  | json e => e.message

/-- The value in a file. -/
def readJson (files : Files) (path : String) : Except FileError Value :=
  match files.read path with
  | .error e => .error (.file e)
  | .ok cs => (Json.read cs).mapError .json

inductive Error where
  | missing
  | notJson
  | unreadable (reason : String)
  | notTables
  | notColumns (table : String)
  | badType (type column table : String)
deriving DecidableEq, Repr

def Error.message : Error → String
  | missing => "File not found."
  | notJson => "Invalid JSON format."
  | unreadable reason => s!"Error reading file: {reason}"
  | notTables => "Invalid schema structure. Top level must be a dictionary."
  | notColumns t =>
    s!"Invalid schema structure. Table '{t}' must map to a dictionary of columns."
  | badType type c t =>
    s!"Invalid column type '{type}' for column '{c}' in table '{t}'. Supported types: 'int', 'string'."

def isType (v : Value) : Bool := v.same (.text "int") || v.same (.text "string")

/-- A text inside a message. -/
def shown (v : Value) : String := v.str.toOption.getD ""

def checkColumns (table : Value) : Entries → Except Error Unit
  | [] => .ok ()
  | (column, type) :: es =>
    if isType type then checkColumns table es
    else .error (.badType (shown type) (shown column) (shown table))

def checkTables : Entries → Except Error Unit
  | [] => .ok ()
  | (table, .dict columns) :: es => do
    checkColumns table columns
    checkTables es
  | (table, _) :: _ => .error (.notColumns (shown table))

/-- Checks that a value is a schema. -/
def check : Value → Except Error Unit
  | .dict es => checkTables es
  | _ => .error .notTables

/-- Loads the schema in a file. -/
def load (files : Files) (path : String) : Except Error Value :=
  if !files.exists_ path then .error .missing
  else
    match readJson files path with
    | .error (.json (.syntax_ ..)) => .error .notJson
    | .error e => .error (.unreadable e.message)
    | .ok v => do
      check v
      return v

end DocQuery.Schema
