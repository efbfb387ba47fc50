import DocQuery.Command.Filter
import DocQuery.Command.Find
import DocQuery.Command.Join
import DocQuery.Command.Shell

namespace DocQuery.Command

open Value (doc)

/-- The aggregates that have an operator of their own. -/
def accumulator? : String → Option String
  | "MIN" => some "$min"
  | "MAX" => some "$max"
  | "AVG" => some "$avg"
  | "SUM" => some "$sum"
  | _ => none

/-- What is accumulated for an aggregate: all documents, those with a value, or the values. -/
def accumulation? (func : String) (column : Value) : Except Fault (Option Value) := do
  if func == "COUNT" then
    if column.same (.text "*") then return some (doc [("$sum", one)])
    else
      let path := Value.text ("$" ++ (← column.str))
      return some (doc [("$sum", doc [("$cond",
        .list [doc [("$ne", .list [path, .null])], one, .int 0])])])
  else
    match accumulator? func with
    | some op => return some (doc [(op, .text ("$" ++ (← column.str)))])
    | none => return none

/-- The fields of the aggregates among the columns, each with what it accumulates. -/
def accumulations : List Value → Except Fault (List (String × Value))
  | [] => .ok []
  | .aggregate f c :: rest => do
    match ← accumulation? f c with
    | some a => do
      let name ← aggregateField f c
      return (name, a) :: (← accumulations rest)
    | none => accumulations rest
  | _ :: rest => accumulations rest

def pathOf (v : Value) : Except Fault Value := return .text ("$" ++ (← v.str))

/-- What the groups are told apart by. -/
def groupKey (groupBy : Value) : Except Fault Value := do
  if !groupBy.present then return .null
  if (← groupBy.size) == 1 then pathOf (← groupBy.index (.int 0))
  else return .dict (← (← groupBy.items).foldlM (fun es c => do Value.insert es c (← pathOf c)) [])

def groupStage (groupBy columns : Value) : Except Fault Value := do
  let key ← groupKey groupBy
  let fields ← accumulations (← columns.items)
  let es := fields.foldl (fun es (f : String × Value) => Entries.put es (.text f.1) f.2)
    [(.text "_id", key)]
  return doc [("$group", .dict es)]

/-- The field by which groups are ordered: a part of the group's key, or an aggregate. -/
def orderField (groupBy column : Value) : Except Fault Value := do
  if groupBy.present then
    if ← column.isIn groupBy then
      if (← groupBy.size) == 1 then return .text "_id"
      else return .text ("_id." ++ (← column.str))
  return column

def putGroupOrder (groupBy : Value) (es : Entries) : Value → Except Fault Entries
  | .orderItem c d => do Value.insert es (← orderField groupBy c) (directionOf d)
  | v => .error (.noField v.kind "direction")

def sortStage (groupBy orderBy : Value) : Except Fault Value := do
  return doc [("$sort", .dict (← (← orderBy.items).foldlM (putGroupOrder groupBy) []))]

/-- The output names: the grouping columns from the group's key, and the aggregates. -/
def outputStage (groupBy columns : Value) : Except Fault Value := do
  let keys ←
    if !groupBy.present then pure ([] : Entries)
    else if (← groupBy.size) == 1 then Value.insert [] (← groupBy.index (.int 0)) (.text "$_id")
    else (← groupBy.items).foldlM (fun es c => do
      Value.insert es c (.text ("$_id." ++ (← c.str)))) []
  let fields ← accumulations (← columns.items)
  return projectStage (fields.foldl (fun es (f : String × Value) => Entries.put es (.text f.1) one)
    (Entries.put keys (.text "_id") (.int 0)))

def groupCommand (base? : Option Value) (q : SelectOf Value) : Except Error Value := do
  let match? ←
    if q.condition.present then do pure [matchStage (← filter base? q.condition)] else pure []
  let group ← groupStage q.groupBy q.columns
  let having ← if q.having.present then do pure [matchStage (← filter base? q.having)] else pure []
  let sort ← if q.orderBy.present then do pure [← sortStage q.groupBy q.orderBy] else pure []
  let limit := match limitOf q.limit with
    | some n => [doc [("$limit", n)]]
    | none => []
  let stages := match? ++ [group] ++ having ++ sort ++ limit
  let output ← outputStage q.groupBy q.columns
  pipelineCommand q.table (stages ++ [output])

end DocQuery.Command
