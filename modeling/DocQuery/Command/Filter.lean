import DocQuery.Command.Error
import DocQuery.Text.Case
import DocQuery.Value.Access

namespace DocQuery.Command

open Value (doc)

/-- What a comparison tests. -/
inductive Test where
  | eq | ne | between | member | gt | lt | ge | le
deriving DecidableEq, Repr

namespace Test

def spelling : Test → String
  | eq => "="
  | ne => "!="
  | between => "BETWEEN"
  | member => "IN"
  | gt => ">"
  | lt => "<"
  | ge => ">="
  | le => "<="

def ofText? (s : String) : Option Test :=
  [eq, ne, between, member, gt, lt, ge, le].find? (fun t => t.spelling == s)

/-- The tests of a field in a filter. -/
def document (field value : Value) : Test → Except Fault Value
  | eq => Value.entryOf field value
  | ne => Value.entryOf field (doc [("$ne", value)])
  | between => do
    let (low, high) ← value.pair
    Value.entryOf field (doc [("$gte", low), ("$lte", high)])
  | member => Value.entryOf field (doc [("$in", value)])
  | gt => Value.entryOf field (doc [("$gt", value)])
  | lt => Value.entryOf field (doc [("$lt", value)])
  | ge => Value.entryOf field (doc [("$gte", value)])
  | le => Value.entryOf field (doc [("$lte", value)])

end Test

/-- The field that holds an aggregate after grouping. -/
def aggregateField (func : String) (column : Value) : Except Fault String :=
  if func == "COUNT" && column.same (.text "*") then .ok "count"
  else return Text.lower func ++ "_" ++ (← column.str)

/-- The field that a comparison is about. A column of the base table stands at the top of a
document, one of another table below the table's name. -/
def fieldOf (base? : Option Value) : Value → Except Fault Value
  | .aggregate f c => return .text (← aggregateField f c)
  | .dict es => do
    let table ← (Value.dict es).entry "table"
    if table.present && !base?.any table.same then
      let t ← table.str
      let c ← (← (Value.dict es).entry "column").str
      return .text (t ++ "." ++ c)
    else (Value.dict es).entry "column"
  | v => .ok v

def testOf (operator : Value) : Except Error Test :=
  match operator with
  | .text s =>
    match Test.ofText? s with
    | some t => .ok t
    | none => .error (.badRelation s)
  | v => do
    v.asKey
    .error (.badRelation (← v.str))

def connectiveOf (operator : Value) : Except Error String := do
  let word ← operator.asText "upper"
  match Text.upper word with
  | "AND" => return "$and"
  | "OR" => return "$or"
  | _ => .error (.badConnective word)

/-- The filter of a condition, for the base table that is current. -/
def filter (base? : Option Value) : Value → Except Error Value
  | .logical l o r => do
    let left ← filter base? l
    let right ← filter base? r
    let key ← connectiveOf o
    return doc [(key, .list [left, right])]
  | .comparison i o v => do
    let field ← fieldOf base? i
    let test ← testOf o
    test.document field v
  | v => .error (.notCondition v.kind)

/-- The filter of a condition that may be absent. -/
def filterOf (base? : Option Value) (condition : Value) : Except Error Value :=
  if condition.present then filter base? condition else .ok (.dict [])

end DocQuery.Command
