import DocQuery.Command.Filter
import DocQuery.Command.Find
import DocQuery.Command.Shell
import DocQuery.Json.Write

namespace DocQuery.Command

open Value (doc)

def lookupStage (source local_ foreign : Value) : Value :=
  doc [("$lookup", doc [("from", source), ("localField", local_), ("foreignField", foreign),
    ("as", source)])]

def unwindStage (field : Value) : Except Fault Value := do
  return doc [("$unwind", .text ("$" ++ (← field.str)))]

def matchStage (filter : Value) : Value := doc [("$match", filter)]

def projectStage (fields : Entries) : Value := doc [("$project", .dict fields)]

/-- The local and the foreign field of a join condition: the local one is the side that names the
base table, or the right side. -/
def joinFields (base left right : Value) : Except Fault (Value × Value) := do
  if (← left.entry "table").same base then return (← left.entry "column", ← right.entry "column")
  else
    let local_ ← right.entry "column"
    return (local_, ← left.entry "column")

/-- A column with the table that it names; `bare` gives the table of a name without one. What is
neither a document nor a text is no column. -/
def tableAndField (bare : String → Except Error Value) : Value → Except Error (Option (Value × Value))
  | .dict es => .ok (some (Entries.field es "table", Entries.field es "column"))
  | .text s =>
    if Value.hasDot s then return some (← Value.dotted s)
    else return some (← bare s, .text s)
  | _ => .ok none

/-- Shows a column of the foreign table below the table's name, another one at the top. -/
def showColumn (foreign : Value) (es : Entries) (table field : Value) : Except Fault Entries := do
  if table.same foreign then
    let name := (← foreign.str) ++ "." ++ (← field.str)
    return es.put (.text name) one
  else Value.insert es field one

/-- The shown columns of a join. -/
def joinColumns (bare : String → Except Error Value) (foreign : Value) (columns : List Value) :
    Except Error Entries :=
  columns.foldlM (fun es c => do
    match ← tableAndField bare c with
    | some (table, field) => showColumn foreign es table field
    | none => return es) []

/-- The first comparison with a column and the comparisons with anything else. -/
def splitConditions : Value → Option Value × List Value
  | .comparison i o v =>
    match v with
    | .dict _ => (some (.comparison i o v), [])
    | _ => (none, [.comparison i o v])
  | .logical l _ r =>
    let (leftJoin, leftFilters) := splitConditions l
    let (rightJoin, rightFilters) := splitConditions r
    (leftJoin.or rightJoin, leftFilters ++ rightFilters)
  | _ => (none, [])

/-- The filters of all conditions at once. -/
def conjunction (base? : Option Value) : List Value → Except Error (Option Value)
  | [] => .ok none
  | [c] => return some (← filter base? c)
  | cs => return some (doc [("$and", .list (← cs.mapM (filter base?)))])

/-- The one table of several whose columns hold a name. -/
def tableWith (schema? : Option Value) (tables : Value) (column : String) : Except Error Value := do
  let found ← (← tables.items).filterM (fun t => do
    match schema? with
    | none => .error .noSchema
    | some schema => (Value.text column).isIn (← schema.index t))
  match found with
  | [t] => return t
  | _ => .error (.ambiguous column)

/-- The pipeline for a list of tables, joined by a comparison of two columns in the condition. -/
def commaJoin (base? schema? : Option Value) (q : SelectOf Value) : Except Error Value := do
  let left ← q.table.index (.int 0)
  let right ← q.table.index (.int 1)
  match splitConditions q.condition with
  | (some (.comparison i _ v), filters) => do
    let (local_, foreign) ← joinFields left i v
    let unwind ← unwindStage right
    let match? ← conjunction base? filters
    let fields ← joinColumns (tableWith schema? q.table) right (← q.columns.items)
    pipelineCommand left
      ([lookupStage right local_ foreign, unwind] ++ (match?.map matchStage).toList
        ++ [projectStage fields])
  | _ => .error .noJoin

/-- The shown columns of an explicit join: those of the joined table are moved to the top. -/
def movedColumns (base joined : Value) (columns : List Value) : Except Error (Entries × Entries) :=
  columns.foldlM (fun (moved, shown) c => do
    match ← tableAndField (fun _ => .ok base) c with
    | none => return (moved, shown)
    | some (table, field) =>
      let moved ← if table.same joined then do
          let path := "$" ++ (← joined.str) ++ "." ++ (← field.str)
          (Value.insert moved field (.text path) : Except Fault Entries)
        else pure moved
      return (moved, ← Value.insert shown field one)) ([], [])

/-- The pipeline for a table with a join clause. Only the first clause counts. -/
def clauseJoin (base? : Option Value) (q : SelectOf Value) : Except Error Value := do
  let join ← q.joins.index (.int 0)
  let joined ← join.entry "table"
  let condition ← join.entry "condition"
  let (left, _, right) ← condition.asComparison "identifier"
  let (local_, foreign) ← joinFields q.table left right
  let unwind ← unwindStage joined
  let match? ←
    if q.condition.present then do pure (some (matchStage (← filter base? q.condition))) else pure none
  let (moved, shown) ← movedColumns q.table joined (← q.columns.items)
  let add := if moved.isEmpty then [] else [doc [("$addFields", .dict moved)]]
  pipelineCommand q.table
    ([lookupStage joined local_ foreign, unwind] ++ match?.toList ++ add ++ [projectStage shown])

/-- The note of a join on a tree. A text has something else under this name. -/
def joinNote : Value → Except Fault Entries
  | .select p =>
    match p.join? with
    | some j => j.asDict "get"
    | none => .error (.noField .select "join")
  | .text _ => .error (.noField .method "get")
  | v => .error (.noField v.kind "join")

/-- The pipeline for the join that checking has noted on a tree. -/
def notedJoin (base? : Option Value) (v : Value) : Except Error Value := do
  let join ← joinNote v
  let q ← v.asSelect "join"
  let foreign := join.field "right_table"
  let unwind ← unwindStage foreign
  let match? ← match q.filter? with
    | some c => if c.present then do pure (some (matchStage (← filter base? c))) else pure none
    | none => pure none
  let fields ← joinColumns (fun _ => .ok .null) foreign (← q.columns.items)
  let stages := [lookupStage foreign (join.field "left_col") (join.field "right_col"), unwind]
    ++ match?.toList ++ [projectStage fields]
  let base := join.field "left_table"
  let name ← base.str
  let shown ← Json.render 2 (.list stages)
  return doc [("string", .text (pipelineText name shown)), ("collection", base),
    ("pipeline", .list stages)]

end DocQuery.Command
