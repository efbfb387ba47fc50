import DocQuery.Command.Find
import DocQuery.Command.Group
import DocQuery.Command.Join

namespace DocQuery.Command

open Value (doc)

/-- Whether a comparison with a subquery occurs in a condition. -/
def hasSubquery : Value → Bool
  | .comparison _ o _ => o.same (.text "IN_SUBQUERY")
  | .logical l _ r => hasSubquery l || hasSubquery r
  | _ => false

/-- Shows a column; what is neither a document nor a text is passed over. -/
def showPlain (es : Entries) : Value → Except Fault Entries
  | .dict fs => do Value.insert es (← (Value.dict fs).entry "column") one
  | .text s => Value.insert es (.text s) one
  | _ => .ok es

def subqueryCommand (q : SelectOf Value) : Except Fault Value := do
  let (identifier, _, value) ← q.condition.asComparison "identifier"
  let field ← shownColumn identifier
  let sub ← value.asSelect "table"
  let column ← (← sub.columns.index (.int 0)).entry "column"
  let found ← Value.entryOf sub.table (doc [("$ne", .list [])])
  let shown ← (← q.columns.items).foldlM showPlain []
  let output := if shown.isEmpty then [] else [projectStage shown]
  pipelineCommand q.table ([lookupStage sub.table field column, matchStage found] ++ output)

def isAggregate : Value → Bool
  | .aggregate .. => true
  | _ => false

def hasAggregate (columns : Value) : Except Fault Bool := return (← columns.items).any isAggregate

/-- Whether the table is a list of at least two. -/
def hasTables : Value → Bool
  | .list ts => ts.length > 1
  | _ => false

/-- The command for a select statement: a subquery, a join clause, a list of tables and grouping
take effect in this order. -/
def ofSelect (schema? : Option Value) (q : SelectOf Value) : Except Error Value := do
  let base? := some q.table
  if q.condition.present && hasSubquery q.condition then subqueryCommand q
  else if q.joins.present then clauseJoin base? q
  else if hasTables q.table then commaJoin base? schema? q
  else if (← hasAggregate q.columns) || q.groupBy.present then groupCommand base? q
  else findCommand base? q

/-- The command for a tree. -/
def translate : Value → Except Error Value
  | .select q => ofSelect none q
  | v => .error (.notQuery v.kind)

/-- The base table that is current after a tree was translated. -/
def baseAfter (base? : Option Value) : Value → Option Value
  | .select q => some q.table
  | _ => base?

end DocQuery.Command
