import DocQuery.Check.Join

namespace DocQuery.Check

/-- The tables whose columns hold a name. -/
def owners (schema : Value) (tables : List Value) (column : Value) : Except Fault (List Value) :=
  tables.filterM (fun t => do column.isIn (← schema.index t))

def requireTable (schema table : Value) : Except Error Unit := do
  if !(← table.isIn schema) then .error (.noTable (← table.str))

def requireColumn (schema table column : Value) : Except Error Unit := do
  if !(← column.isIn (← schema.index table)) then .error (.noColumn (← column.str) (← table.str))

def typeOf (schema table column : Value) : Except Fault Value := do
  (← schema.index table).index column

def endsInId (v : Value) : Except Fault Bool := do
  return "_id".toList.isSuffixOf (← v.asText "endswith").toList

/-- Two columns are related if they have one name, or if one is a key `id` and the other ends in
`_id`. -/
def related (left right : Value) : Except Fault Bool := do
  if left.same right then return true
  if ← endsInId left then
    if right.same (.text "id") then return true
  if ← endsInId right then return left.same (.text "id")
  return false

def checkJoin (schema : Value) (left right : Value × Value) : Except Error Unit := do
  requireTable schema left.1
  requireTable schema right.1
  requireColumn schema left.1 left.2
  requireColumn schema right.1 right.2
  if !(← typeOf schema left.1 left.2).same (← typeOf schema right.1 right.2) then .error .joinTypes
  if !(← related left.2 right.2) then
    .error (.unrelated (← left.1.str) (← left.2.str) (← right.1.str) (← right.2.str))

/-- The type of a compared column, in the table that it names or in the one table that has it. -/
def testedType (schema : Value) (tables : List Value) (table column : Value) :
    Except Error Value := do
  if table.present then
    requireTable schema table
    if !(← column.isIn (← schema.index table)) then
      .error (.notInTable (← column.str) (← table.str))
    typeOf schema table column
  else
    match ← owners schema tables column with
    | [] => .error (.testedNowhere (← column.str))
    | [t] => typeOf schema t column
    | _ => .error (.testedTwice (← column.str))

def isType (type : Value) (name : String) : Bool := type.same (.text name)

/-- A bound of a range or a member of a list has the column's type; types other than `int` and
`string` are not checked. -/
def checkBound (column type v : Value) : Except Error Unit := do
  if isType type "int" && !v.isInt then .error (.boundType (← column.str) "int")
  if isType type "string" && !v.isText then .error (.boundType (← column.str) "string")

def checkRange (column type : Value) : Value → Except Error Unit
  | .tuple [low, high] => do
    checkBound column type low
    checkBound column type high
  | _ => .error .badRange

def checkMembers (column type : Value) : Value → Except Error Unit
  | .list vs => vs.forM (checkBound column type)
  | _ => .error .badList

def valueType (v : Value) : String :=
  if v.isInt then "int" else if v.isText then "string" else "unknown"

def checkValue (column type v : Value) : Except Error Unit := do
  if !isType type (valueType v) then
    .error (.valueType (← column.str) (← type.str) (valueType v))

/-- The table and the column of an identifier that may be bare. -/
def testedColumn : Value → Value × Value
  | .dict es => (Entries.field es "table", Entries.field es "column")
  | v => (.null, v)

/-- A comparison of a column or an aggregate with values. -/
def checkTest (schema : Value) (tables : List Value) (identifier operator value : Value) :
    Except Error Unit := do
  match testedColumn identifier with
  | (_, .aggregate ..) => if !(value.isInt || value.isText) then .error .aggregateValue
  | (table, column) =>
    let type ← testedType schema tables table column
    if operator.same (.text "BETWEEN") then checkRange column type value
    else if operator.same (.text "IN") then checkMembers column type value
    else checkValue column type value

/-- Whether a value can be a side of a join condition. -/
def namesColumn : Value → Bool
  | .dict _ => true
  | .text s => Value.hasDot s
  | _ => false

def sideOf : Value → Except Fault (Value × Value)
  | .text s => Value.dotted s
  | v => .ok (testedColumn v)

def checkPlain (schema : Value) (tables : List Value) (identifier operator value : Value) :
    Except Error Unit := do
  if namesColumn identifier && namesColumn value then
    let left ← sideOf identifier
    let right ← sideOf value
    checkJoin schema left right
  else checkTest schema tables identifier operator value

def isSubquery (operator : Value) : Bool := operator.same (.text "IN_SUBQUERY")

/-- Checks a comparison; `subquery` checks the statement in it, if there is one. -/
def checkComparison (schema : Value) (subquery : Value → Checked Value) (tables : List Value) :
    Value → Checked Value
  | .comparison i o v =>
    if isSubquery o then (subquery v).map (.comparison i o)
    else ⟨.comparison i o v, checkPlain schema tables i o v⟩
  | .logical l o r =>
    .reject (.logical l o r)
      (.fault (.noField .logical (if isSubquery o then "value" else "identifier")))
  | v => .reject v (.fault (.noField v.kind "operator"))

/-- Checks the comparisons of a condition from left to right. What is no condition is accepted. -/
def checkCondition (schema : Value) (subquery : Value → Checked Value) (tables : List Value) :
    Value → Checked Value
  | .logical l o r =>
    let left := checkCondition schema subquery tables l
    match left.outcome with
    | .error e => .reject (.logical left.tree o r) e
    | .ok () => (checkCondition schema subquery tables r).map (.logical left.tree o)
  | .comparison i o v => checkComparison schema subquery tables (.comparison i o v)
  | v => .accept v

/-- The tables that a value stands for. -/
def tablesOf : Value → List Value
  | .list ts => ts
  | t => [t]

end DocQuery.Check
