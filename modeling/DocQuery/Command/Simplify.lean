import DocQuery.Command.Shell
import DocQuery.Value.Access

namespace DocQuery.Command

open Value (doc)

mutual
/-- Alternatives with those of nested alternatives in their place. -/
def flatten : Value → Except Fault (List Value)
  | .list xs => flattenItems xs
  | .tuple xs => flattenItems xs
  | v => v.items

def flattenItems : List Value → Except Fault (List Value)
  | [] => .ok []
  | .dict es :: xs => do
    let here ← match nested? es with
      | some inner => inner
      | none => .ok [.dict es]
    return here ++ (← flattenItems xs)
  | x :: xs => return x :: (← flattenItems xs)

/-- The flat alternatives of a document that has some. -/
def nested? : List (Value × Value) → Option (Except Fault (List Value))
  | [] => none
  | (k, v) :: es => if k.same (.text "$or") then some (flatten v) else nested? es
end

/-- The one entry of a document. -/
def single? : Value → Option (Value × Value)
  | .dict [e] => some e
  | _ => none

/-- The field of the tests so far, if the next one is on the same field. `null` is no field. -/
def sameField? (field key : Value) : Option Value :=
  if field.kind = .null then some key else if field.same key then some field else none

/-- The field that a list of equalities tests, with the values. -/
def equalities? : Value → List Value → Option (Value × List Value)
  | field, [] => some (field, [])
  | field, c :: cs => do
    let (key, v) ← single? c
    match v with
    | .dict _ => none
    | v => do
      let field ← sameField? field key
      let (field, vs) ← equalities? field cs
      some (field, v :: vs)

/-- The field that a list of bounds tests, with the lower and the upper ones. -/
def bounds? : Value → List Value → Option (Value × List Value × List Value)
  | field, [] => some (field, [], [])
  | field, c :: cs => do
    let (key, v) ← single? c
    let field ← sameField? field key
    match v with
    | .dict es =>
      match Entries.get? es (.text "$gt"), Entries.get? es (.text "$lt") with
      | some low, _ => do
        let (field, lows, highs) ← bounds? field cs
        some (field, low :: lows, highs)
      | none, some high => do
        let (field, lows, highs) ← bounds? field cs
        some (field, lows, high :: highs)
      | none, none => none
    | _ => none

/-- The values without repetitions, each in its first place. -/
def distinct (vs : List Value) : Except Fault (List Value) := do
  vs.forM Value.asKey
  return vs.foldl (fun done v => if done.any v.same then done else done ++ [v]) []

def least : Value → List Value → Except Fault Value
  | v, [] => .ok v
  | v, w :: ws =>
    match w.less v with
    | .ok b => least (if b then w else v) ws
    | .error (a, b) => .error (.notLess a b)

def greatest : Value → List Value → Except Fault Value
  | v, [] => .ok v
  | v, w :: ws =>
    match w.greater v with
    | .ok b => greatest (if b then w else v) ws
    | .error (a, b) => .error (.notGreater a b)

/-- Alternatives in the simplest form: a list of values, the weakest lower bound, the weakest upper
bound, or the flat list. -/
def alternatives (flat : List Value) : Except Fault Value := do
  match equalities? .null flat with
  | some (field, vs) => return .dict [(field, doc [("$in", .list (← distinct vs))])]
  | none =>
    match bounds? .null flat with
    | some (field, low :: lows, _) => return .dict [(field, doc [("$gt", ← least low lows)])]
    | some (field, [], high :: highs) => return .dict [(field, doc [("$lt", ← greatest high highs)])]
    | _ => return doc [("$or", .list flat)]

/-- Adds all entries of a document to another. -/
def update (es : Entries) (fs : Entries) : Entries :=
  fs.foldl (fun es f => Entries.put es f.1 f.2) es

/-- Merges an entry: the tests of a field go together, other repeated entries are dropped. -/
def mergeEntry (es : Entries) (key v : Value) : Entries :=
  match Entries.get? es key, v with
  | none, v => Entries.put es key v
  | some (.dict old), .dict new => Entries.put es key (.dict (update old new))
  | some _, _ => es

def merge (conditions : List Value) : Except Fault Entries :=
  conditions.foldlM (fun es c => do
    return (← c.asDict "items").foldl (fun es f => mergeEntry es f.1 f.2) es) []

/-- A simpler filter: alternatives are simplified, else conditions merged. -/
def simplifyFilter (v : Value) : Except Fault Value := do
  if ← (Value.text "$or").isIn v then alternatives (← flatten (← v.entry "$or"))
  else if ← (Value.text "$and").isIn v then
    return .dict (← merge (← (← v.entry "$and").items))
  else return v

/-- The distinct values in ascending order. -/
def sortedMembers (v : Value) : Except Fault Value := do
  let vs ← distinct (← v.items)
  match Value.sorted vs with
  | .ok vs => return .list vs
  | .error (a, b) => .error (.notLess a b)

def isMembership : Value → Bool
  | .dict es => Entries.has es (.text "$in")
  | _ => false

/-- Sorts the members in the tests of a field. -/
def sortTests : Value → Except Fault Value
  | .dict es => do
    let vs ← sortedMembers (Entries.field es "$in")
    return .dict (Entries.put es (.text "$in") vs)
  | v => .ok v

mutual
/-- Sorts all lists of members in a filter. -/
def sortMembers : Value → Except Fault Value
  | .dict es => return .dict (← sortMemberEntries es)
  | .list xs => return .list (← sortMemberItems xs)
  | v => .ok v

def sortMemberItems : List Value → Except Fault (List Value)
  | [] => .ok []
  | x :: xs => do
    let x ← sortMembers x
    return x :: (← sortMemberItems xs)

def sortMemberEntries : List (Value × Value) → Except Fault (List (Value × Value))
  | [] => .ok []
  | (k, v) :: es => do
    let v ← if isMembership v then sortTests v else sortMembers v
    return (k, v) :: (← sortMemberEntries es)
end

/-- The stages with all filters before the others. -/
def filtersFirst (pipeline : Value) : Except Fault (List Value) := do
  let stages ← pipeline.items
  let marked ← stages.mapM (fun s => do return (← (Value.text "$match").isIn s, s))
  return ((marked.filter (·.1)) ++ (marked.filter (!·.1))).map (·.2)

/-- The text of a command that finds documents. -/
def findCommandText (command : Value) : Except Fault String := do
  let name ← command.entry "collection"
  let es ← command.asDict "get"
  let filter := Entries.field es "filter"
  let filterText ← if filter.present then shellText filter else pure "\x7b\x7d"
  let projection := Entries.field es "projection"
  let projectionText? ←
    if projection.present then do pure (some (← shellText projection)) else pure none
  let head := findText (← name.str) filterText projectionText?
  let sort ← match Entries.get? es (.text "sort") with
    | some s => do pure (sortText (← shellText s))
    | none => pure ""
  let limit ← match Entries.get? es (.text "limit") with
    | some n => do pure (limitText (← n.str))
    | none => pure ""
  return head ++ sort ++ limit

/-- The text of a command that runs a pipeline. -/
def pipelineCommandText (command : Value) : Except Fault String := do
  let name ← (← command.entry "collection").str
  let stages ← (← command.entry "pipeline").str
  return pipelineText name stages

/-- Sets an entry of a document. -/
def setEntry (key : String) (v : Value) : Value → Value
  | .dict es => .dict (Entries.put es (.text key) v)
  | w => w

/-- The simpler form of a command, with its text. -/
def simplify (command : Value) : Except Fault Value := do
  if ← (Value.text "filter").isIn command then
    let filter ← simplifyFilter (← command.entry "filter")
    let command := setEntry "filter" (← sortMembers filter) command
    return setEntry "string" (.text (← findCommandText command)) command
  else if ← (Value.text "pipeline").isIn command then
    let command := setEntry "pipeline" (.list (← filtersFirst (← command.entry "pipeline"))) command
    return setEntry "string" (.text (← pipelineCommandText command)) command
  else return command

end DocQuery.Command
