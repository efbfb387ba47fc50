import DocQuery.Command.Simplify
import DocQuery.Literal.Read
import DocQuery.Text.Ranges

namespace DocQuery.Command

/-- The name after `db.`, if the call of a method follows it. -/
def collectionAt (method : List Char) (cs : List Char) : Option (List Char) :=
  match cs with
  | 'd' :: 'b' :: '.' :: rest =>
    let name := rest.takeWhile Text.isWord
    if !name.isEmpty && ('.' :: method).isPrefixOf (rest.dropWhile Text.isWord) then some name
    else none
  | _ => none

/-- The first collection on which a method is called. -/
def collectionIn (method : List Char) : List Char → Option (List Char)
  | [] => none
  | c :: cs =>
    match collectionAt method (c :: cs) with
    | some name => some name
    | none => collectionIn method cs

/-- The text up to its last closing parenthesis. -/
def upToClose (cs : List Char) : Option (List Char) :=
  if cs.contains ')' then some ((cs.reverse.dropWhile (· != ')')).drop 1).reverse else none

/-- The arguments of the first call of a method that is closed within its scope. -/
def argumentsIn (method : List Char) (scope : List Char → List Char) :
    List Char → Option (List Char)
  | [] => none
  | c :: cs =>
    let call := method ++ ['(']
    if call.isPrefixOf (c :: cs) then
      match upToClose (scope ((c :: cs).drop call.length)) with
      | some args => some args
      | none => argumentsIn method scope cs
    else argumentsIn method scope cs

/-- Quotes every operator. -/
def quoteOperators : Nat → List Char → List Char
  | 0, cs => cs
  | _, [] => []
  | n + 1, c :: cs =>
    let word := cs.takeWhile Text.isWord
    if c = '$' ∧ ¬word.isEmpty then
      '"' :: '$' :: word ++ '"' :: quoteOperators n (cs.dropWhile Text.isWord)
    else c :: quoteOperators n cs

def isAsciiNameStart (c : Char) : Bool := c.isAlpha || c == '_'

/-- Quotes every name before a colon. -/
def quoteNames : Nat → List Char → List Char
  | 0, cs => cs
  | _, [] => []
  | n + 1, c :: cs =>
    if isAsciiNameStart c then
      match Text.dropBlanks (cs.dropWhile Text.isWord) with
      | ':' :: rest => '"' :: c :: cs.takeWhile Text.isWord ++ '"' :: ':' :: quoteNames n rest
      | _ => c :: quoteNames n cs
    else c :: quoteNames n cs

/-- Reads a filter as the shell shows it. -/
def readFilter (text : List Char) : Except Literal.ReadError Value :=
  let cs := Text.trim text
  if cs.isEmpty then .ok (.dict [])
  else
    let cs := quoteOperators cs.length cs
    let cs := quoteNames cs.length cs
    Literal.read (cs.map (fun c => if c = '\'' then '"' else c))

/-- The failure of a search for a call. -/
def noCall : Fault := .noField .null "group"

/-- Simplifies the text of a command that finds documents; what cannot be read stays. -/
def simplifyFindText (command : String) : Except Fault String := do
  let cs := command.toList
  match collectionIn "find".toList cs with
  | none => .error noCall
  | some name =>
    match argumentsIn "find".toList id cs with
    | none => return command
    | some args =>
      match readFilter args with
      | .error _ => return command
      | .ok filter =>
        return findText (String.ofList name) (← (← simplifyFilter filter).str) none

/-- Simplifies the text of a command that runs a pipeline; what cannot be read stays. -/
def simplifyPipelineText (command : String) : Except Fault String := do
  let cs := command.toList
  match collectionIn "aggregate".toList cs, argumentsIn "aggregate".toList id cs with
  | some name, some args =>
    match Literal.read args with
    | .error _ => return command
    | .ok pipeline =>
      return pipelineText (String.ofList name) (← (Value.list (← filtersFirst pipeline)).str)
  | _, _ => .error noCall

/-- The parts of a text between the occurrences of a closing brace with a comma. -/
def bracedParts : List Char → List (List Char)
  | [] => [[]]
  | '\x7d' :: ',' :: cs => [] :: bracedParts cs
  | c :: cs =>
    match bracedParts cs with
    | p :: ps => (c :: p) :: ps
    | [] => [[c]]

/-- Closes a part of the arguments. -/
def closed (part : List Char) : List Char :=
  let part := Text.trim part
  if part.getLast? = some '\x7d' then part else part ++ ['\x7d']

/-- Reads a document after putting every dollar sign between quotes. -/
def readDocument (cs : List Char) : Except Literal.ReadError Value :=
  Literal.read (cs.flatMap (fun c => if c = '$' then ['"', '$', '"'] else [c]))

/-- Reads the collection, the filter and the projection of a search. The filter ends at the first
closing brace with a comma, which is put back. -/
def readFind (command : String) : Option (String × Value × Value) := do
  let cs := command.toList
  let name ← collectionIn "find".toList cs
  let args ← argumentsIn "find".toList (·.takeWhile (· != '\n')) cs
  match bracedParts args with
  | [] => none
  | part :: rest => do
    let filter ← (readDocument (part ++ ['\x7d'])).toOption
    let projection ← match rest with
      | [] => some .null
      | p :: _ => (readDocument (closed p)).toOption
    some (String.ofList name, filter, projection)

end DocQuery.Command
