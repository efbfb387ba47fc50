import DocQuery.Text.Quoted
import DocQuery.Text.Ranges
import DocQuery.Text.Utf8

namespace DocQuery

inductive File where
  | bytes (content : List UInt8)
  | directory
deriving DecidableEq, Repr

/-- The files of a directory by their names. -/
abbrev Files := List (String × File)

namespace Files

inductive Error where
  | missing (path : String)
  | notDirectory (path : String)
  | isDirectory (path : String)
  | undecodable (e : Text.DecodeError)
deriving DecidableEq, Repr

def Error.message : Error → String
  | missing path => s!"[Errno 2] No such file or directory: {Text.quote path}"
  | notDirectory path => s!"[Errno 20] Not a directory: {Text.quote path}"
  | isDirectory path => s!"[Errno 21] Is a directory: {Text.quote path}"
  | undecodable e => e.message

/-- The steps of a path. -/
def stepsOf (cs : List Char) : List (List Char) :=
  match cs with
  | [] => [[]]
  | c :: cs =>
    match stepsOf cs with
    | p :: ps => if c = '/' then [] :: p :: ps else (c :: p) :: ps
    | [] => [[c]]

/-- The steps of a path that lead somewhere. -/
def route (path : String) : List String :=
  ((stepsOf path.toList).filter (fun s => !s.isEmpty && s != ['.'])).map String.ofList

def up : String := ".."

def isDirectory (files : Files) (names : List String) : Bool :=
  names.isEmpty || files.lookup ("/".intercalate names) == some .directory

/-- That there is a directory on the way of a path. -/
def enter (files : Files) (path : String) (names : List String) : Except Error Unit :=
  if isDirectory files names then .ok ()
  else
    match files.lookup ("/".intercalate names) with
    | some (.bytes _) => .error (.notDirectory path)
    | _ => .error (.missing path)

/-- Follows steps from one directory into the next, and gives the names that lead to the last one.
Nothing is known of what lies outside. -/
def follow (files : Files) (path : String) : List String → List String → Except Error (List String)
  | names, [] => .ok names
  | names, step :: steps => do
    enter files path names
    if step != up then follow files path (names ++ [step]) steps
    else if names.isEmpty then .error (.missing path)
    else follow files path names.dropLast steps

def isAbsolute (path : String) : Bool := path.toList.head? == some '/'

def endsInSlash (path : String) : Bool := path.toList.getLast? == some '/'

/-- Whether a path leads to a directory around the files. -/
def leadsOut (path : String) : Bool := path != "" && (route path).all (· == up)

/-- The file at the end of a way. A path that ends in a slash leads to a directory only. -/
def walk (files : Files) (path : String) : Except Error File := do
  let names ← follow files path [] (route path)
  match files.lookup ("/".intercalate names) with
  | some (.bytes content) =>
    if endsInSlash path then .error (.notDirectory path) else .ok (.bytes content)
  | some .directory => .ok .directory
  | none => if names.isEmpty then .ok .directory else .error (.missing path)

/-- The file with a name, or at the end of the way that a path describes; or why there is none. -/
def locate (files : Files) (path : String) : Except Error File :=
  match files.lookup path with
  | some f => .ok f
  | none =>
    if leadsOut path then .ok .directory
    else if path == "" || isAbsolute path then .error (.missing path)
    else walk files path

def find? (files : Files) (path : String) : Option File := (locate files path).toOption

def exists_ (files : Files) (path : String) : Bool := (find? files path).isSome

def isFile (files : Files) (path : String) : Bool :=
  match find? files path with
  | some (.bytes _) => true
  | _ => false

/-- Reads a text; line ends of all kinds become line feeds. -/
def read (files : Files) (path : String) : Except Error (List Char) := do
  match ← locate files path with
  | .directory => .error (.isDirectory path)
  | .bytes content =>
    match Text.decodeUtf8 content with
    | .ok cs => .ok (Text.lineFeeds cs)
    | .error e => .error (.undecodable e)

/-- Puts a file in its place, or at the end. -/
def put : Files → String → File → Files
  | [], name, f => [(name, f)]
  | (k, g) :: files, name, f => if k = name then (k, f) :: files else (k, g) :: put files name f

/-- The name under which a path is written. The directory that is to hold the file must be
there. -/
def target (files : Files) (path : String) : Except Error String :=
  if files.find? path == some .directory then .error (.isDirectory path)
  else if (files.lookup path).isSome then .ok path
  else if path == "" || isAbsolute path then .error (.missing path)
  else do
    let names ← follow files path [] (route path)
    if endsInSlash path then .error (.isDirectory path) else .ok ("/".intercalate names)

/-- Writes a text. -/
def write (files : Files) (path : String) (text : String) : Except Error Files := do
  return files.put (← target files path) (.bytes (Text.encodeUtf8 text))

end Files

end DocQuery
