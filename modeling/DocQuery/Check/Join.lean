import DocQuery.Check.Error
import DocQuery.Value.Access

namespace DocQuery.Check

/-- The table and the column that a value names, if it is an identifier or a dotted text. -/
def columnOf : Value → Except Fault (Option (Value × Value))
  | .dict es => .ok (some (Entries.field es "table", Entries.field es "column"))
  | .text s => if Value.hasDot s then return some (← Value.dotted s) else .ok none
  | _ => .ok none

def joinDocument (left right : Value × Value) : Value :=
  .doc [("left_table", left.1), ("left_col", left.2), ("right_table", right.1),
    ("right_col", right.2)]

/-- The first join condition in a tree, as a document. -/
def joinOf : Value → Except Fault (Option Value)
  | .comparison i _ v => do
    match ← columnOf i with
    | none => return none
    | some left =>
      match ← columnOf v with
      | none => return none
      | some right => return some (joinDocument left right)
  | .logical l _ r => do
    match ← joinOf l with
    | some j => return some j
    | none => joinOf r
  | _ => .ok none

/-- Both of two conditions, where there are two. -/
def conjoin : Option Value → Option Value → Option Value
  | some a, some b => some (.logical a (.text "AND") b)
  | a, b => a.or b

/-- The first join condition of a tree, and the conjunction of all its other comparisons. -/
def splitJoin : Value → Except Fault (Option Value × Option Value)
  | .logical l _ r => do
    let (leftJoin, leftFilter) ← splitJoin l
    let (rightJoin, rightFilter) ← splitJoin r
    return (leftJoin.or rightJoin, conjoin leftFilter rightFilter)
  | .comparison i o v => do
    match ← joinOf (.comparison i o v) with
    | some _ => return (some (.comparison i o v), none)
    | none => return (none, some (.comparison i o v))
  | _ => .ok (none, none)

end DocQuery.Check
