import DocQuery.Value.Access

namespace DocQuery.Command

mutual
def shellText : Value → Except Fault String
  | .dict es => return Value.commaList "\x7b " " \x7d" (← shellEntries es)
  | .list xs => return Value.commaList "[ " " ]" (← shellItems xs)
  | .text s => .ok ("\"" ++ s ++ "\"")
  | v => v.str

def shellItems : List Value → Except Fault (List String)
  | [] => .ok []
  | x :: xs => do
    let s ← shellText x
    return s :: (← shellItems xs)

def shellEntries : List (Value × Value) → Except Fault (List String)
  | [] => .ok []
  | (k, v) :: es => do
    let s ← shellText v
    let k ← k.str
    return (k ++ ": " ++ s) :: (← shellEntries es)
end

/-- A call that shows documents on a collection. -/
def findText (collection filter : String) (projection? : Option String) : String :=
  match projection? with
  | some p => s!"db.{collection}.find({filter}, {p})"
  | none => s!"db.{collection}.find({filter})"

def sortText (sort : String) : String := s!".sort({sort})"

def limitText (limit : String) : String := s!".limit({limit})"

def pipelineText (collection pipeline : String) : String := s!"db.{collection}.aggregate({pipeline})"

/-- A command that runs a pipeline. -/
def pipelineCommand (collection : Value) (stages : List Value) : Except Fault Value := do
  let name ← collection.str
  let shown ← (Value.list stages).repr
  return .doc [("string", .text (pipelineText name shown)), ("collection", collection),
    ("pipeline", .list stages)]

end DocQuery.Command
