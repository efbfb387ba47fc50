import DocQuery.Transpiler

namespace DocQuery.Console

/-- The file at a path, as it is now. -/
def fileAt (path : String) : IO (Option File) := do
  try
    let place ← IO.FS.realPath path
    if ← place.isDir then return some .directory
    return some (.bytes (← IO.FS.readBinFile place).toList)
  catch _ => return none

/-- Adds the file at a path. -/
def addFile (files : Files) (path : String) : IO Files := do
  let files := files.filter (fun e => e.1 != path)
  match ← fileAt path with
  | some f => return (path, f) :: files
  | none => return files

/-- The directory of a path. -/
def directoryOf (path : String) : String :=
  match path.toList.reverse.dropWhile (· != '/') with
  | [] => "."
  | cs => String.ofList cs.reverse

/-- Adds the file at a path that is to be written; where it can be made it counts as empty. -/
def addOutput (files : Files) (path : String) : IO Files := do
  let files ← addFile files path
  if (files.lookup path).isSome || path == "" then return files
  match ← fileAt (directoryOf path) with
  | some .directory => return (path, .bytes []) :: files
  | _ => return files

def display (s : Shell.Streams) : IO Unit := do
  IO.eprint s.err
  IO.print s.out
  (← IO.getStdout).flush

/-- Writes the files that differ from what they were. -/
def saveChanges (before after : Files) : IO Unit := do
  for (name, file) in after do
    if before.lookup name != some file then
      if let .bytes content := file then IO.FS.writeBinFile name ⟨content.toArray⟩

/-- Answers lines as they come. -/
partial def interact (verbose : Bool) (files : Files) (s : Shell.State) : IO Unit := do
  display Shell.prompt
  let line ← (← IO.getStdin).getLine
  if line.isEmpty then display Shell.farewell
  else
    let files ← match Shell.newPath? (Text.strip line) with
      | some path => addFile files path
      | none => pure files
    match Shell.step files verbose s line with
    | none => return ()
    | some (s, shown) =>
      display shown
      interact verbose files s

/-- Adds the files that an action is about. -/
def filesFor : Transpiler.Action → IO Files
  | .shell schema? _ => addFile [] (schema?.getD "")
  | .transpile schema? query? output? _ => do
    addOutput (← addFile (← addFile [] (schema?.getD "")) (query?.getD "")) (output?.getD "")
  | _ => pure []

def runShell (files : Files) (schema : String) (verbose : Bool) : IO UInt32 := do
  let (state?, shown) := Transpiler.openShell files schema verbose
  display shown
  match state? with
  | none => return 1
  | some s =>
    interact verbose files s
    return 0

def run (args : List String) : IO UInt32 := do
  let action := Transpiler.action args
  let files ← filesFor action
  match action with
  | .shell (some schema) verbose => runShell files schema verbose
  | _ =>
    match Transpiler.run files args "" with
    | .error e =>
      IO.eprintln e.message
      return 1
    | .ok outcome =>
      display outcome.streams
      saveChanges files outcome.files
      return outcome.exit.toUInt32

end DocQuery.Console

def main (args : List String) : IO UInt32 := DocQuery.Console.run args
