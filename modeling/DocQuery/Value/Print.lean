import DocQuery.Text.Quoted
import DocQuery.Value.Basic

namespace DocQuery.Value

/-- Starts every line but the first with blanks. -/
def indent (width : Nat) (s : String) : String :=
  String.ofList (s.toList.flatMap (fun c => if c = '\n' then c :: List.replicate width ' ' else [c]))

def commaList (open_ close : String) (items : List String) : String :=
  open_ ++ ", ".intercalate items ++ close

/-- A value inside a text: a text stands for itself, all else has its literal form. -/
def plain (v : Value) (literal : Except Kind String) : Except Kind String :=
  match v with
  | text s => .ok s
  | _ => literal

def printInt (n : Int) : String := if n < 0 then "-" ++ toString n.natAbs else toString n.natAbs

/-- A condition of a select statement, or a dash where there is none. -/
def clause (v : Value) (literal : Except Kind String) : Except Kind String :=
  if v.present then literal.map (indent 4) else .ok "None"

def block (v : Value) (items : Except Kind (List String)) : Except Kind String :=
  if v.present then
    items.map (fun ss => "[\n        " ++ ",\n        ".intercalate ss ++ "\n    ]")
  else .ok "[]"

mutual
def literal : Value → Except Kind String
  | null => .ok "None"
  | bool b => .ok (if b then "True" else "False")
  | int n => .ok (printInt n)
  | real x => .ok x.text
  | text s => .ok (Text.quote s)
  | list xs => return commaList "[" "]" (← literals xs)
  | tuple [x] => return "(" ++ (← literal x) ++ ",)"
  | tuple xs => return commaList "(" ")" (← literals xs)
  | dict es => return commaList "\x7b" "\x7d" (← literalEntries es)
  | node => .ok "ASTNode"
  | comparison i o v => do
    let i ← plain i (literal i)
    let o ← plain o (literal o)
    let v ← literal v
    return s!"Comparison(\n    identifier='{i}',\n    operator='{o}',\n    value={v}\n)"
  | logical l o r => do
    let l ← literal l
    let r ← literal r
    let o ← plain o (literal o)
    return s!"LogicalCondition(\n    left={indent 4 l},\n    operator='{o}',\n    right={indent 4 r}\n)"
  | orderItem c d => do
    let c ← plain c (literal c)
    return s!"OrderByItem(\n    column='{c}',\n    direction='{d}'\n)"
  | aggregate f c => do
    let c ← plain c (literal c)
    return s!"Aggregate(\n    func='{f}',\n    column='{c}'\n)"
  | select p => literalSelect p

def literals : List Value → Except Kind (List String)
  | [] => .ok []
  | x :: xs => return (← literal x) :: (← literals xs)

def literalEntries : List (Value × Value) → Except Kind (List String)
  | [] => .ok []
  | (k, v) :: es => do
    let k ← literal k
    let v ← literal v
    return (k ++ ": " ++ v) :: (← literalEntries es)

def literalKeys : List (Value × Value) → Except Kind (List String)
  | [] => .ok []
  | (k, _) :: es => return (← literal k) :: (← literalKeys es)

/-- The literal forms of what a value is made of. -/
def literalItems : Value → Except Kind (List String)
  | list xs => literals xs
  | tuple xs => literals xs
  | dict es => literalKeys es
  | text s => .ok (s.toList.map (fun c => Text.quote (String.singleton c)))
  | v => .error v.kind

def literalSelect : SelectOf Value → Except Kind String
  | ⟨columns, table, _, condition, groupBy, having, orderBy, limit, offset, _, _, _⟩ => do
    let condition ← clause condition (literal condition)
    let groupBy ← block groupBy (literalItems groupBy)
    let having ← clause having (literal having)
    let orderBy ← block orderBy ((literalItems orderBy).map (·.map (indent 8)))
    let columns ← plain columns (literal columns)
    let table ← plain table (literal table)
    let limit ← plain limit (literal limit)
    let offset ← plain offset (literal offset)
    return s!"SelectQuery(\n    columns={columns},\n    table='{table}',\n    where={condition},\n    group_by={groupBy},\n    having={having},\n    order_by={orderBy},\n    limit={limit},\n    offset={offset}\n)"
end

/-- The value as part of a text. -/
def shown (v : Value) : Except Kind String := plain v (literal v)

end DocQuery.Value
