import DocQuery.Check.Condition

namespace DocQuery.Check

/-- The tables of a statement, with those of its joins. -/
def allTables (q : SelectOf Value) : Except Fault (List Value) := do
  if q.joins.present then
    return tablesOf q.table ++ (← (← q.joins.items).mapM (·.entry "table"))
  else return tablesOf q.table

/-- A selected column: its table, its name, and the key that must not occur twice. -/
structure Selected where
  table : Value
  column : Value
  key : String

/-- The one table of a tree that has a column. -/
def ownerIn (schema tree column : Value) : Except Error Value := do
  let tables ← allTables (← tree.asSelect "table")
  match ← owners schema tables column with
  | [] => .error (.selectedNowhere (← column.str))
  | [t] => return t
  | _ => .error (.selectedTwice (← column.str))

def selectedAs (table column : Value) : Except Error Selected := do
  return ⟨table, column, (← table.str) ++ "." ++ (← column.str)⟩

/-- The column of an aggregate, in the base table unless it names another one. -/
def aggregated (base column : Value) : Except Fault (Value × Value) := do
  if ← (Value.text ".").isIn column then Value.dotted (← column.asText "split")
  else return (base, column)

/-- Finds the table of a selected column. The count of all rows is about no column. -/
def select (schema base tree : Value) : Value → Except Error (Option Selected)
  | .dict es => do
    let column := Entries.field es "column"
    let named := Entries.field es "table"
    let table ←
      if named.kind = .null || !Entries.has es (.text ".") then ownerIn schema tree column
      else pure named
    return some (← selectedAs table column)
  | .text s => do
    if Value.hasDot s then
      let (table, column) ← Value.dotted s
      return some (← selectedAs table column)
    else return some (← selectedAs (← ownerIn schema tree (.text s)) (.text s))
  | .aggregate f c => do
    if f == "COUNT" && c.same (.text "*") then return none
    let (table, column) ← aggregated base c
    let selected ← selectedAs table column
    return some { selected with key := "agg_" ++ f ++ "_" ++ selected.key }
  | v => do .error (.notColumn (← v.str))

/-- Adds a column to the notes of a tree. -/
def note (tree table column : Value) : Except Fault Value :=
  let entry := Value.doc [("table", table), ("column", column)]
  match tree with
  | .select q =>
    match q.resolved? with
    | none => .ok (.select { q with resolved? := some (.list [entry]) })
    | some (.list xs) => .ok (.select { q with resolved? := some (.list (xs ++ [entry])) })
    | some v => .error (.noField v.kind "append")
  | v => if v.kind.isNode then .ok v else .error (.noField v.kind "resolved_columns")

def checkEach (schema base : Value) : List Value → List String → Value → Checked Value
  | [], _, tree => .accept tree
  | c :: cs, seen, tree =>
    match select schema base tree c with
    | .error e => .reject tree e
    | .ok none => checkEach schema base cs seen tree
    | .ok (some s) =>
      if seen.contains s.key then ⟨tree, do .error (.duplicate (← s.column.str))⟩
      else
        match note tree s.table s.column with
        | .error f => .reject tree (.fault f)
        | .ok noted =>
          (⟨noted, do requireTable schema s.table; requireColumn schema s.table s.column⟩ :
            Checked Value).andThen (checkEach schema base cs (s.key :: seen))

/-- Checks selected columns for a base table, and notes them on a tree. -/
def checkColumns (schema columns base tree : Value) : Checked Value :=
  match schema.index base with
  | .error f => .reject tree (.fault f)
  | .ok _ =>
    if columns.same (.list [.text "*"]) then .accept tree
    else
      match columns.items with
      | .error f => .reject tree (.fault f)
      | .ok cs => checkEach schema base cs [] tree

end DocQuery.Check
