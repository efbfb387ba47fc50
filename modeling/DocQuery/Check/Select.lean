import DocQuery.Check.Columns
import DocQuery.Value.Node

namespace DocQuery.Check

abbrev Select := SelectOf Value

/-- All tables are known, and there are at most two. -/
def checkTables (schema : Value) (q : Select) : Except Error Unit := do
  let tables ← allTables q
  if tables.length > 2 then .error .tooManyTables
  tables.forM (requireTable schema)

/-- The base table: the first one. -/
def baseTable (q : Select) : Except Fault Value := do
  (Value.list (← allTables q)).index (.int 0)

def checkSelected (schema : Value) (q : Select) : Checked Select :=
  match baseTable q with
  | .error f => .reject q (.fault f)
  | .ok base =>
    (checkColumns schema q.columns base (.select q)).map (fun tree =>
      match tree with
      | .select q' => q'
      | _ => q)

/-- Sets an entry of a document. -/
def withEntry (key : String) (v : Value) : Value → Value
  | .dict es => .dict (Entries.put es (.text key) v)
  | w => w

/-- Checks join conditions; each sees the tables up to its own. -/
def checkClauses (schema : Value) (subquery : Value → Checked Value) :
    List Value → List Value → Checked (List Value)
  | _, [] => .accept []
  | tables, j :: js =>
    match j.entry "table", j.entry "condition" with
    | .error f, _ => .reject (j :: js) (.fault f)
    | _, .error f => .reject (j :: js) (.fault f)
    | .ok t, .ok c =>
      let checked := checkCondition schema subquery (tables ++ [t]) c
      let j := withEntry "condition" checked.tree j
      match checked.outcome with
      | .error e => .reject (j :: js) e
      | .ok () => (checkClauses schema subquery (tables ++ [t]) js).map (j :: ·)

def checkJoins (schema : Value) (subquery : Value → Checked Value) (q : Select) : Checked Select :=
  match q.joins with
  | .list js =>
    (checkClauses schema subquery (tablesOf q.table) js).map (fun js => { q with joins := .list js })
  | .tuple js =>
    (checkClauses schema subquery (tablesOf q.table) js).map (fun js => { q with joins := .tuple js })
  | _ => .accept q

/-- Whether the table is a list of two. -/
def isPair : Value → Bool
  | .list ts => ts.length == 2
  | _ => false

def checkWhere (schema : Value) (subquery : Value → Checked Value) (q : Select) : Checked Select :=
  if q.condition.present then
    match allTables q with
    | .error f => .reject q (.fault f)
    | .ok tables =>
      (checkCondition schema subquery tables q.condition).map (fun c => { q with condition := c })
  else if isPair q.table then .reject q .joinRequired
  else .accept q

/-- Notes the join of two tables and the rest of the condition, or that there is none. -/
def noteJoin (q : Select) : Checked Select :=
  let q := { q with join? := some .null, filter? := some .null }
  if isPair q.table then
    match splitJoin q.condition with
    | .error f => .reject q (.fault f)
    | .ok (none, _) => .reject q .joinMissing
    | .ok (some c, rest) =>
      match joinOf c with
      | .error f => .reject q (.fault f)
      | .ok join? => .accept { q with join? := some (join?.getD .null), filter? := some (rest.getD .null) }
  else .accept q

def checkHaving (schema : Value) (subquery : Value → Checked Value) (q : Select) : Checked Select :=
  if q.having.present then
    if q.groupBy.present then
      match allTables q with
      | .error f => .reject q (.fault f)
      | .ok tables =>
        (checkCondition schema subquery tables q.having).map (fun c => { q with having := c })
    else .reject q .havingWithoutGroup
  else .accept q

/-- The name of a selected column that has to be grouped. -/
def groupedName : Value → Value
  | .dict es => Entries.field es "column"
  | v => v

def checkGrouped (groupBy column : Value) : Except Error Unit :=
  match groupedName column with
  | .text s => do if !(← (Value.text s).isIn groupBy) then .error (.ungrouped s)
  | _ => .ok ()

/-- The grouping columns exist in the base table, and every plain column is one of them. -/
def checkGroups (schema : Value) (q : Select) : Except Error Unit := do
  if q.groupBy.present then
    let base ← baseTable q
    let columns ← schema.index base
    (← q.groupBy.items).forM (fun c => do
      if !(← c.isIn columns) then .error (.noColumn (← c.str) (← base.str)))
    (← q.columns.items).forM (checkGrouped q.groupBy)

/-- Checks a statement; `subquery` checks the statements in its conditions. -/
def checkSelect (schema : Value) (subquery : Value → Checked Value) (q : Select) : Checked Select :=
  (⟨q, checkTables schema q⟩ : Checked Select)
    |>.andThen (checkSelected schema)
    |>.andThen (checkJoins schema subquery)
    |>.andThen (checkWhere schema subquery)
    |>.andThen noteJoin
    |>.andThen (checkHaving schema subquery)
    |>.andThen (fun q => ⟨q, checkGroups schema q⟩)

/-- Checks a tree whose statements are nested to at most the given depth. -/
def checkNested (schema : Value) : Nat → Value → Checked Value
  | depth + 1, .select q => (checkSelect schema (checkNested schema depth) q).map .select
  | _, v => .reject v (.notQuery v.kind)

/-- Checks a tree against a schema. -/
def check (schema tree : Value) : Checked Value := checkNested schema (tree.depth + 1) tree

end DocQuery.Check
