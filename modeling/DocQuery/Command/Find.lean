import DocQuery.Command.Filter
import DocQuery.Command.Shell

namespace DocQuery.Command

open Value (doc)

def one : Value := .int 1

/-- The name under which a column is shown. -/
def shownColumn : Value → Except Fault Value
  | .dict es => (Value.dict es).entry "column"
  | v => .ok v

/-- The columns that are shown; none are named if all are. -/
def projection (columns : Value) : Except Fault Value := do
  if columns.same (.list [.text "*"]) then return .null
  let es ← (← columns.items).foldlM (fun es c => do Value.insert es (← shownColumn c) one) []
  return .dict es

def directionOf (word : String) : Value := if Text.upper word == "ASC" then .int 1 else .int (-1)

def putOrder (es : Entries) : Value → Except Fault Entries
  | .orderItem c d => Value.insert es c (directionOf d)
  | _ => .ok es

/-- The order of the documents; what is no ordering is passed over. -/
def sort (orderBy : Value) : Except Fault Value := do
  return .dict (← (← orderBy.items).foldlM putOrder [])

/-- The entries for an order and a limit, where there are any. -/
def tailEntries (sort? limit? : Option Value) : List (String × Value) :=
  (sort?.map (fun s => ("sort", s))).toList ++ (limit?.map (fun n => ("limit", n))).toList

/-- A limit of `null` is none. -/
def limitOf : Value → Option Value
  | .null => none
  | v => some v

def sortOf (orderBy : Value) : Except Fault (Option Value) :=
  if orderBy.present then return some (← sort orderBy) else .ok none

def tailText (sort? limit? : Option Value) : Except Fault String := do
  let s ← match sort? with
    | some s => do pure (sortText (← shellText s))
    | none => pure ""
  let l ← match limit? with
    | some n => do pure (limitText (← n.str))
    | none => pure ""
  return s ++ l

def findCommand (base? : Option Value) (q : SelectOf Value) : Except Error Value := do
  let filter ← filterOf base? q.condition
  let projection ← projection q.columns
  let filterText ← shellText filter
  let projectionText? ←
    if projection.present then do pure (some (← shellText projection)) else pure none
  let head := findText (← q.table.str) filterText projectionText?
  let sort? ← sortOf q.orderBy
  let limit? := limitOf q.limit
  let tail ← tailText sort? limit?
  return doc ([("string", .text (head ++ tail)), ("collection", q.table), ("filter", filter),
    ("projection", projection)] ++ tailEntries sort? limit?)

end DocQuery.Command
