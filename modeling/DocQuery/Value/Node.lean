import DocQuery.Text.Case
import DocQuery.Value.Access

namespace DocQuery.Value

def ordering (column direction : Value) : Except Fault Value := do
  return orderItem column (Text.upper (← direction.asText "upper"))

def aggregation (func column : Value) : Except Fault Value := do
  return aggregate (Text.upper (← func.asText "upper")) column

def orEmpty (v : Value) : Value := if v.present then v else list []

def selection (p : SelectOf Value) : Value :=
  select { p with joins := p.joins.orEmpty, groupBy := p.groupBy.orEmpty, orderBy := p.orderBy.orEmpty }

mutual
def depth : Value → Nat
  | list xs => depths xs + 1
  | tuple xs => depths xs + 1
  | dict es => entryDepths es + 1
  | comparison i o v => max (depth i) (max (depth o) (depth v)) + 1
  | logical l o r => max (depth l) (max (depth o) (depth r)) + 1
  | orderItem c _ => depth c + 1
  | aggregate _ c => depth c + 1
  | select p => selectDepth p + 1
  | _ => 0

def depths : List Value → Nat
  | [] => 0
  | x :: xs => max (depth x) (depths xs)

def entryDepths : List (Value × Value) → Nat
  | [] => 0
  | (k, v) :: es => max (max (depth k) (depth v)) (entryDepths es)

def noteDepth : Option Value → Nat
  | none => 0
  | some v => depth v

def selectDepth : SelectOf Value → Nat
  | ⟨columns, table, joins, condition, groupBy, having, orderBy, limit, offset, join?, filter?,
      resolved?⟩ =>
    [depth columns, depth table, depth joins, depth condition, depth groupBy, depth having,
      depth orderBy, depth limit, depth offset, noteDepth join?, noteDepth filter?,
      noteDepth resolved?].foldl max 0
end

end DocQuery.Value
