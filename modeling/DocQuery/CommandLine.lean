import DocQuery.Text.Digit
import DocQuery.Text.Quoted

namespace DocQuery.CommandLine

/-- An option; `argument?` is the word for its argument. -/
structure Flag where
  names : List String
  argument? : Option String
  help : String
  required : Bool

structure Program where
  name : String
  usage : String
  description : String
  epilog : String
  flags : List Flag

/-- What is wrong with a command line. -/
inductive Error where
  | ambiguous (option : String) (matches_ : List String)
  | ignoredArgument (flag : String) (argument : String)
  | missingArgument (flag : String)
  | missingFlags (flags : List String)
  | unrecognized (arguments : List String)
deriving DecidableEq, Repr

def Error.message : Error → String
  | ambiguous o ms => s!"ambiguous option: {o} could match " ++ ", ".intercalate ms
  | ignoredArgument f a => s!"argument {f}: ignored explicit argument {Text.quote a}"
  | missingArgument f => s!"argument {f}: expected one argument"
  | missingFlags fs => "the following arguments are required: " ++ ", ".intercalate fs
  | unrecognized as => "unrecognized arguments: " ++ " ".intercalate as

/-- The name of a flag in messages. -/
def Flag.title (f : Flag) : String := "/".intercalate f.names

/-- The name under which a flag's value is kept. -/
def Flag.key (f : Flag) : String := f.names.getLast?.getD ""

def helpFlag : Flag := ⟨["-h", "--help"], none, "show this help message and exit", false⟩

namespace Program

def allFlags (p : Program) : List Flag := helpFlag :: p.flags

/-- All names with their flags. -/
def names (p : Program) : List (String × Flag) :=
  p.allFlags.flatMap (fun f => f.names.map (fun n => (n, f)))

def find? (p : Program) (name : String) : Option Flag := p.names.lookup name

end Program

/-- How an argument is taken. An option may have an argument attached to it, after an equals sign
or right after a letter. -/
inductive Role where
  | positional
  | separator
  | option (flag? : Option Flag) (name : String) (attached? : Option String)

/-- Splits at the first equals sign. -/
def splitEquals (s : String) : Option (String × String) :=
  let cs := s.toList
  if cs.contains '=' then
    some (String.ofList (cs.takeWhile (· != '=')), String.ofList ((cs.dropWhile (· != '=')).drop 1))
  else none

def startsWith (s beginning : String) : Bool := beginning.toList.isPrefixOf s.toList

/-- The flags that an argument may abbreviate. -/
def candidates (p : Program) (arg : String) : List (String × Flag × Option String) :=
  if startsWith arg "--" then
    let (beginning, attached?) := match splitEquals arg with
      | some (name, value) => (name, some value)
      | none => (arg, none)
    p.names.filterMap (fun (n, f) => if startsWith n beginning then some (n, f, attached?) else none)
  else
    let short := String.ofList (arg.toList.take 2)
    let rest := String.ofList (arg.toList.drop 2)
    p.names.filterMap (fun (n, f) =>
      if n == short then some (n, f, some rest)
      else if startsWith n arg then some (n, f, none)
      else none)

/-- Whether an argument reads as a negative number: digits, or digits after a point. -/
def isNegativeNumber (arg : String) : Bool :=
  match arg.toList with
  | '-' :: cs =>
    let cs := if cs.getLast? = some '\n' then cs.dropLast else cs
    match cs.dropWhile Text.isDigit with
    | [] => !cs.isEmpty
    | '.' :: more => !more.isEmpty && more.all Text.isDigit
    | _ => false
  | _ => false

def optionRole (p : Program) (arg : String) : Except Error Role :=
  match candidates p arg with
  | [(n, f, attached?)] => .ok (.option (some f) n attached?)
  | [] =>
    if isNegativeNumber arg || arg.toList.contains ' ' then .ok .positional
    else .ok (.option none arg none)
  | several => .error (.ambiguous arg (several.map (·.1)))

def role (p : Program) (arg : String) : Except Error Role :=
  if arg.toList.head? != some '-' then .ok .positional
  else
    match p.find? arg with
    | some f => .ok (.option (some f) arg none)
    | none =>
      if arg == "-" then .ok .positional
      else
        match splitEquals arg with
        | some (name, value) =>
          match p.find? name with
          | some f => .ok (.option (some f) name (some value))
          | none => optionRole p arg
        | none => optionRole p arg

def separator : String := "--"

/-- The roles of all arguments. After a separator there are no options. -/
def roles (p : Program) : List String → Except Error (List (String × Role))
  | [] => .ok []
  | arg :: args =>
    if arg == separator then .ok ((arg, .separator) :: args.map (fun a => (a, .positional)))
    else do
      let r ← role p arg
      return (arg, r) :: (← roles p args)

/-- The options that were given, the last one first. One may be without a value: it takes no
argument, or the argument attached to it is a separator. -/
abbrev Given := List (String × Option String)

/-- What a command line says so far. -/
structure Parsed where
  given : Given
  extras : List String

def Parsed.give (p : Parsed) (f : Flag) (value? : Option String) : Parsed :=
  { p with given := (f.key, value?) :: p.given }

def Parsed.leave (p : Parsed) (arg : String) : Parsed := { p with extras := p.extras ++ [arg] }

inductive Result where
  | help
  | failed (e : Error)
  | parsed (given : Given)

/-- Takes more flags without arguments from the letters after one. Every letter must be such a
flag. -/
def takeLetters (p : Program) : Flag → List Char → Except Error Unit
  | _, [] => .ok ()
  | f, c :: cs =>
    match p.find? (String.ofList ['-', c]) with
    | some g => takeLetters p g cs
    | none => .error (.ignoredArgument f.title (String.ofList (c :: cs)))

/-- The value of a flag with an attached argument. If it takes none, then more letters may be
attached to a letter. -/
def attachedValue (p : Program) (f : Flag) (name text : String) : Except Error (Option String) :=
  match f.argument? with
  | some _ => .ok (if text == separator then none else some text)
  | none =>
    if startsWith name "--" || text == "" then .error (.ignoredArgument f.title text)
    else do
      takeLetters p f text.toList
      return none

/-- Takes the arguments in order. Asking for help ends it. -/
def take (p : Program) : List (String × Role) → Parsed → Except Error (Option Parsed)
  | [], done => .ok (some done)
  | (arg, .option none ..) :: rest, done => take p rest (done.leave arg)
  | (arg, .positional) :: rest, done => take p rest (done.leave arg)
  | (arg, .separator) :: rest, done => take p rest (done.leave arg)
  | (_, .option (some f) name (some text)) :: rest, done => do
    let value? ← attachedValue p f name text
    if f.key == helpFlag.key then return none
    take p rest (done.give f value?)
  | (_, .option (some f) _ none) :: rest, done =>
    if f.argument?.isSome then
      match rest with
      | (value, .positional) :: rest => take p rest (done.give f (some value))
      | _ => .error (.missingArgument f.title)
    else if f.key == helpFlag.key then .ok none
    else take p rest (done.give f none)

def missing (p : Program) (given : Given) : List String :=
  (p.flags.filter (fun f => f.required && (given.lookup f.key).isNone)).map Flag.title

/-- Reads a command line. -/
def parse (p : Program) (args : List String) : Result :=
  match roles p args with
  | .error e => .failed e
  | .ok rs =>
    match take p rs ⟨[], []⟩ with
    | .error e => .failed e
    | .ok none => .help
    | .ok (some done) =>
      if !(missing p done.given).isEmpty then .failed (.missingFlags (missing p done.given))
      else if !done.extras.isEmpty then .failed (.unrecognized done.extras)
      else .parsed done.given

/-- How a flag is called. -/
def Flag.call (f : Flag) : String :=
  match f.argument? with
  | some a => ", ".intercalate (f.names.map (fun n => n ++ " " ++ a))
  | none => ", ".intercalate f.names

def padded (width : Nat) (s : String) : String :=
  s ++ String.ofList (List.replicate (width - s.length) ' ')

def Program.helpText (p : Program) : String :=
  let width := (p.allFlags.map (fun f => f.call.length)).foldl max 0
  let lines := p.allFlags.map (fun f => s!"  {padded width f.call}  {f.help}\n")
  let epilog := if p.epilog == "" then "" else s!"\n{p.epilog}\n"
  s!"{p.usage}\n{p.description}\n\noptions:\n{String.join lines}{epilog}"

def Program.errorText (p : Program) (e : Error) : String :=
  s!"{p.usage}{p.name}: error: {e.message}\n"

end DocQuery.CommandLine
