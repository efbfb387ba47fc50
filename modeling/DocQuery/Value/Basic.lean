import DocQuery.Number.Double

namespace DocQuery

/-- The parts of a select statement, and the notes that checking leaves on it. -/
structure SelectOf (α : Type) where
  columns : α
  table : α
  joins : α
  condition : α
  groupBy : α
  having : α
  orderBy : α
  limit : α
  offset : α
  join? : Option α
  filter? : Option α
  resolved? : Option α
deriving Repr, BEq, DecidableEq

inductive Value where
  | null
  | bool (b : Bool)
  | int (n : Int)
  | real (x : Number.Double)
  | text (s : String)
  | list (items : List Value)
  | tuple (items : List Value)
  | dict (entries : List (Value × Value))
  | node
  | comparison (identifier operator value : Value)
  | logical (left operator right : Value)
  | orderItem (column : Value) (direction : String)
  | aggregate (func : String) (column : Value)
  | select (parts : SelectOf Value)
deriving Inhabited, Repr, BEq

abbrev Entries := List (Value × Value)

/-- The kinds of values. A `method` is what a text has under a name that it knows. -/
inductive Kind where
  | null | bool | int | real | text | list | tuple | dict
  | node | comparison | logical | orderItem | aggregate | select | method
deriving DecidableEq, Repr

namespace Kind

def name : Kind → String
  | null => "NoneType"
  | bool => "bool"
  | int => "int"
  | real => "float"
  | text => "str"
  | list => "list"
  | tuple => "tuple"
  | dict => "dict"
  | node => "ASTNode"
  | comparison => "Comparison"
  | logical => "LogicalCondition"
  | orderItem => "OrderByItem"
  | aggregate => "Aggregate"
  | select => "SelectQuery"
  | method => "builtin_function_or_method"

def isNode : Kind → Bool
  | node | comparison | logical | orderItem | aggregate | select => true
  | _ => false

/-- The name of a kind with the place where it is defined. -/
def fullName (k : Kind) : String := if k.isNode then "sql2mongo.ast.nodes." ++ k.name else k.name

end Kind

namespace Value

def kind : Value → Kind
  | null => .null
  | bool _ => .bool
  | int _ => .int
  | real _ => .real
  | text _ => .text
  | list _ => .list
  | tuple _ => .tuple
  | dict _ => .dict
  | node => .node
  | comparison .. => .comparison
  | logical .. => .logical
  | orderItem .. => .orderItem
  | aggregate .. => .aggregate
  | select _ => .select

/-- Whether a value counts as present: absent are `null`, `false`, zero and what is empty. -/
def present : Value → Bool
  | null => false
  | bool b => b
  | int n => n != 0
  | real (.finite _ m _) => m != 0
  | text s => s != ""
  | list xs => !xs.isEmpty
  | tuple xs => !xs.isEmpty
  | dict es => !es.isEmpty
  | _ => true

def isInt : Value → Bool
  | int _ | bool _ => true
  | _ => false

def isText : Value → Bool
  | text _ => true
  | _ => false

/-- A document with text keys. -/
def doc (fields : List (String × Value)) : Value := dict (fields.map (fun f => (text f.1, f.2)))

end Value

end DocQuery
