import DocQuery.Sql.Token

namespace DocQuery.Sql

structure ColumnRef where
  table? : Option String
  name : String
deriving DecidableEq, Repr

inductive Literal where
  | number (n : Nat)
  | text (s : String)
deriving DecidableEq, Repr

/-- The comparison operators. -/
inductive Relation where
  | eq | ne | gt | lt | ge | le
deriving DecidableEq, Repr

namespace Relation

def symbol : Relation → Symbol
  | eq => .eq
  | ne => .ne
  | gt => .gt
  | lt => .lt
  | ge => .ge
  | le => .le

def ofSymbol? : Symbol → Option Relation
  | .eq => some eq
  | .ne => some ne
  | .gt => some gt
  | .lt => some lt
  | .ge => some ge
  | .le => some le
  | _ => none

end Relation

inductive Func where
  | count | min | max | avg | sum
deriving DecidableEq, Repr

namespace Func

def keyword : Func → Keyword
  | count => .count
  | min => .min
  | max => .max
  | avg => .avg
  | sum => .sum

def ofKeyword? : Keyword → Option Func
  | .count => some count
  | .min => some min
  | .max => some max
  | .avg => some avg
  | .sum => some sum
  | _ => none

end Func

/-- An aggregate of a column, or the count of all rows. -/
inductive Aggregate where
  | countAll
  | call (func : Func) (column : String)
deriving DecidableEq, Repr

/-- The name under which a result holds an aggregate. -/
def Aggregate.alias : Aggregate → String
  | countAll => "count"
  | call f c => f.keyword.spelling.toLower ++ "_" ++ c

inductive Operand where
  | column (c : ColumnRef)
  | literal (l : Literal)
deriving DecidableEq, Repr

inductive SelectItem where
  | column (c : ColumnRef)
  | aggregate (a : Aggregate)
deriving DecidableEq, Repr

inductive SelectList where
  | all
  | items (first : SelectItem) (rest : List SelectItem)
deriving DecidableEq, Repr

inductive Direction where
  | asc | desc
deriving DecidableEq, Repr

structure OrderItem where
  column : String
  direction : Direction
deriving DecidableEq, Repr

/-- The tables of a statement: one, two with a join condition, or a list of at least two. -/
inductive Source (C : Type) where
  | table (name : String)
  | join (base joined : String) (on : C)
  | tables (first second : String) (rest : List String)
deriving BEq, Repr

structure Statement (C : Type) where
  items : SelectList
  source : Source C
  condition? : Option C
  groupBy : List String
  having? : Option C
  orderBy : List OrderItem
  limit? : Option Nat
deriving BEq, Repr

/-- Conditions. A connective keeps the letter case in which it was written. -/
inductive Condition where
  | compare (left : ColumnRef) (relation : Relation) (right : Operand)
  | aggregate (left : Aggregate) (relation : Relation) (right : Literal)
  | between (column : String) (low high : Literal)
  | inList (column : ColumnRef) (first : Literal) (rest : List Literal)
  | inQuery (column : ColumnRef) (query : Statement Condition)
  | connect (left : Condition) (word : String) (right : Condition)
deriving Repr, BEq

abbrev Query := Statement Condition

end DocQuery.Sql
