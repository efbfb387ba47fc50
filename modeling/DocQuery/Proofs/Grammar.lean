import DocQuery.Sql.Token
import DocQuery.Sql.Tree
import DocQuery.Text.Case
import DocQuery.Value.Access

namespace DocQuery.Proofs

open Sql
open Value (doc)

/-- The lists of the grammar, with commas between their items. -/
inductive Items where
  | columns | names | literals | orderItems
deriving DecidableEq

/-- The clauses of a keyword and one part. -/
inductive Clause where
  | condition | having | limit
deriving DecidableEq

/-- The clauses of two keywords and a list. -/
inductive ByClause where
  | group | order
deriving DecidableEq

/-- The symbols of the grammar: kinds of lexemes, then what is made of them. -/
inductive Part where
  | keyword (k : Keyword) | identifier | number | text | symbol (s : Symbol)
  | query | subquery | selectList | tableList | column | columnRef | aggregate | condition | term
  | comparison | operator | literal | orderItem | list (i : Items) | clause (c : Clause)
  | byClause (c : ByClause) | empty
deriving DecidableEq

def lexemePart : Lexeme → Part
  | .keyword k _ => .keyword k
  | .identifier _ => .identifier
  | .number _ => .number
  | .text _ => .text
  | .symbol s => .symbol s

def Items.item : Items → Part
  | columns => .column
  | names => .identifier
  | literals => .literal
  | orderItems => .orderItem

def Clause.keyword : Clause → Keyword
  | condition => .whereWord
  | having => .having
  | limit => .limit

def Clause.body : Clause → Part
  | condition => .condition
  | having => .condition
  | limit => .number

def ByClause.keyword : ByClause → Keyword
  | group => .group
  | order => .order

def ByClause.items : ByClause → Items
  | group => .names
  | order => .orderItems

/-- The derivations of each part of the grammar; every production is a constructor. -/
inductive Derivation : Part → Type where
  | keyword (k : Keyword) (word : String) : Derivation (.keyword k)
  | identifier (name : String) : Derivation .identifier
  | number (n : Nat) : Derivation .number
  | text (s : String) : Derivation .text
  | symbol (s : Symbol) : Derivation (.symbol s)
  | query : Derivation (.keyword .select) → Derivation .selectList →
      Derivation (.keyword .fromWord) → Derivation .tableList → Derivation (.clause .condition) →
      Derivation (.byClause .group) → Derivation (.clause .having) →
      Derivation (.byClause .order) → Derivation (.clause .limit) →
      Derivation (.symbol .semicolon) → Derivation .query
  | subquery : Derivation (.keyword .select) → Derivation .selectList →
      Derivation (.keyword .fromWord) → Derivation .tableList → Derivation (.clause .condition) →
      Derivation (.byClause .group) → Derivation (.clause .having) →
      Derivation (.byClause .order) → Derivation (.clause .limit) → Derivation .subquery
  | allColumns : Derivation (.symbol .star) → Derivation .selectList
  | someColumns : Derivation (.list .columns) → Derivation .selectList
  | table : Derivation .identifier → Derivation .tableList
  | join : Derivation .identifier → Derivation (.keyword .join) → Derivation .identifier →
      Derivation (.keyword .on) → Derivation .condition → Derivation .tableList
  | moreTables : Derivation .tableList → Derivation (.symbol .comma) → Derivation .identifier →
      Derivation .tableList
  | one (i : Items) : Derivation i.item → Derivation (.list i)
  | more (i : Items) : Derivation (.list i) → Derivation (.symbol .comma) → Derivation i.item →
      Derivation (.list i)
  | column : Derivation .columnRef → Derivation .column
  | columnCount : Derivation (.keyword .count) → Derivation (.symbol .lparen) →
      Derivation (.symbol .star) → Derivation (.symbol .rparen) → Derivation .column
  | columnCall (f : Func) : Derivation (.keyword f.keyword) → Derivation (.symbol .lparen) →
      Derivation .identifier → Derivation (.symbol .rparen) → Derivation .column
  | count : Derivation (.keyword .count) → Derivation (.symbol .lparen) →
      Derivation (.symbol .star) → Derivation (.symbol .rparen) → Derivation .aggregate
  | call (f : Func) : Derivation (.keyword f.keyword) → Derivation (.symbol .lparen) →
      Derivation .identifier → Derivation (.symbol .rparen) → Derivation .aggregate
  | term : Derivation .term → Derivation .condition
  | both : Derivation .condition → Derivation (.keyword .andWord) → Derivation .term →
      Derivation .condition
  | either : Derivation .condition → Derivation (.keyword .orWord) → Derivation .term →
      Derivation .condition
  | comparison : Derivation .comparison → Derivation .term
  | compareColumns : Derivation .columnRef → Derivation .operator → Derivation .columnRef →
      Derivation .comparison
  | compareLiteral : Derivation .columnRef → Derivation .operator → Derivation .literal →
      Derivation .comparison
  | compareAggregate : Derivation .aggregate → Derivation .operator → Derivation .literal →
      Derivation .comparison
  | between : Derivation .identifier → Derivation (.keyword .between) → Derivation .literal →
      Derivation (.keyword .andWord) → Derivation .literal → Derivation .comparison
  | inList : Derivation .columnRef → Derivation (.keyword .inWord) →
      Derivation (.symbol .lparen) → Derivation (.list .literals) →
      Derivation (.symbol .rparen) → Derivation .comparison
  | inQuery : Derivation .columnRef → Derivation (.keyword .inWord) →
      Derivation (.symbol .lparen) → Derivation .subquery → Derivation (.symbol .rparen) →
      Derivation .comparison
  | operator (r : Relation) : Derivation (.symbol r.symbol) → Derivation .operator
  | numberLiteral : Derivation .number → Derivation .literal
  | textLiteral : Derivation .text → Derivation .literal
  | orderColumn : Derivation .identifier → Derivation .orderItem
  | orderAggregate : Derivation .aggregate → Derivation .orderItem
  | orderColumnBy (d : Direction) : Derivation .identifier → Derivation (.keyword d.keyword) →
      Derivation .orderItem
  | orderAggregateBy (d : Direction) : Derivation .aggregate → Derivation (.keyword d.keyword) →
      Derivation .orderItem
  | clause (c : Clause) : Derivation (.keyword c.keyword) → Derivation c.body →
      Derivation (.clause c)
  | noClause (c : Clause) : Derivation .empty → Derivation (.clause c)
  | byClause (c : ByClause) : Derivation (.keyword c.keyword) → Derivation (.keyword .byWord) →
      Derivation (.list c.items) → Derivation (.byClause c)
  | noByClause (c : ByClause) : Derivation .empty → Derivation (.byClause c)
  | empty : Derivation .empty
  | columnRef : Derivation .identifier → Derivation .columnRef
  | qualified : Derivation .identifier → Derivation (.symbol .dot) → Derivation .identifier →
      Derivation .columnRef

/-- The lexemes at the leaves of a derivation. -/
def Derivation.yield : {p : Part} → Derivation p → List Lexeme
  | _, keyword k w => [.keyword k w]
  | _, identifier a => [.identifier a]
  | _, number n => [.number n]
  | _, text s => [.text s]
  | _, symbol s => [.symbol s]
  | _, query a b c d e f g h i j => a.yield ++ (b.yield ++ (c.yield ++ (d.yield ++ (e.yield ++
      (f.yield ++ (g.yield ++ (h.yield ++ (i.yield ++ j.yield))))))))
  | _, subquery a b c d e f g h i => a.yield ++ (b.yield ++ (c.yield ++ (d.yield ++ (e.yield ++
      (f.yield ++ (g.yield ++ (h.yield ++ i.yield)))))))
  | _, join a b c d e => a.yield ++ (b.yield ++ (c.yield ++ (d.yield ++ e.yield)))
  | _, columnCount a b c d | _, columnCall _ a b c d | _, count a b c d | _, call _ a b c d =>
    a.yield ++ (b.yield ++ (c.yield ++ d.yield))
  | _, between a b c d e | _, inList a b c d e | _, inQuery a b c d e =>
    a.yield ++ (b.yield ++ (c.yield ++ (d.yield ++ e.yield)))
  | _, moreTables a b c | _, more _ a b c | _, both a b c | _, either a b c
  | _, compareColumns a b c | _, compareLiteral a b c | _, compareAggregate a b c
  | _, byClause _ a b c | _, qualified a b c => a.yield ++ (b.yield ++ c.yield)
  | _, orderColumnBy _ a b | _, orderAggregateBy _ a b | _, clause _ a b => a.yield ++ b.yield
  | _, allColumns a | _, someColumns a | _, table a | _, one _ a | _, column a | _, term a
  | _, comparison a | _, operator _ a | _, numberLiteral a | _, textLiteral a | _, orderColumn a
  | _, orderAggregate a | _, noClause _ a | _, noByClause _ a | _, columnRef a => a.yield
  | _, empty => []

def textOf : Value → String
  | .text s => s
  | _ => ""

/-- A list with one more member. -/
def appended : Value → Value → Value
  | .list vs, v => .list (vs ++ [v])
  | w, _ => w

/-- One table, with a join or without. -/
def tableValue (base : Value) (joins : List Value) : Value :=
  doc [("base", base), ("joins", .list joins)]

def joinedTables : Value → List Value
  | .list joins => joins.map fun | .dict es => Entries.field es "table" | _ => .null
  | _ => []

/-- A list of tables with one more. A join before a comma leaves its tables only. -/
def tablesWith : Value → Value → Value
  | .dict es, name =>
    .list (Entries.field es "base" :: joinedTables (Entries.field es "joins") ++ [name])
  | tables, name => appended tables name

/-- A statement of its parts. -/
def selectValue (columns tables condition groupBy having orderBy limit : Value) : Value :=
  let (table, joins) : Value × Value := match tables with
    | .dict es => (Entries.field es "base", Entries.field es "joins")
    | .list [t] => (t, .list [])
    | ts => (ts, .list [])
  .select {
    columns, table, joins, condition, groupBy, having, orderBy, limit
    offset := .null
    join? := none
    filter? := none
    resolved? := none }

def aggregateValue (func column : Value) : Value := .aggregate (Text.upper (textOf func)) column

/-- An aggregate is ordered by under its alias. -/
def orderedBy : Value → Value
  | .aggregate "COUNT" (.text "*") => .text "count"
  | .aggregate f c => .text (Text.lower f ++ "_" ++ textOf c)
  | v => v

def columnValue (table column : Value) : Value := doc [("table", table), ("column", column)]

/-- The value of a derivation, by the action of each production. -/
def Derivation.value : {p : Part} → Derivation p → Value
  | _, keyword _ w => .text w
  | _, identifier a => .text a
  | _, number n => .int n
  | _, text s => .text s
  | _, symbol s => .text s.spelling
  | _, query _ columns _ tables condition group having order limit _ =>
    selectValue columns.value tables.value condition.value group.value having.value order.value
      limit.value
  | _, subquery _ columns _ tables condition group having order limit =>
    selectValue columns.value tables.value condition.value group.value having.value order.value
      limit.value
  | _, allColumns star => .list [star.value]
  | _, someColumns columns => columns.value
  | _, table a => tableValue a.value []
  | _, join a _ b _ on =>
    tableValue a.value [doc [("table", b.value), ("condition", on.value)]]
  | _, moreTables tables _ a => tablesWith tables.value a.value
  | _, one _ x => .list [x.value]
  | _, more _ xs _ x => appended xs.value x.value
  | _, columnCount f _ c _ | _, columnCall _ f _ c _ | _, count f _ c _ | _, call _ f _ c _ =>
    aggregateValue f.value c.value
  | _, both l w r | _, either l w r => .logical l.value w.value r.value
  | _, compareColumns c o x | _, compareLiteral c o x | _, compareAggregate c o x =>
    .comparison c.value o.value x.value
  | _, between c _ low _ high =>
    .comparison c.value (.text "BETWEEN") (.tuple [low.value, high.value])
  | _, inList c _ _ xs _ => .comparison c.value (.text "IN") xs.value
  | _, inQuery c _ _ q _ => .comparison c.value (.text "IN_SUBQUERY") q.value
  | _, orderColumn x | _, orderAggregate x => .orderItem (orderedBy x.value) "ASC"
  | _, orderColumnBy _ x d | _, orderAggregateBy _ x d =>
    .orderItem (orderedBy x.value) (Text.upper (textOf d.value))
  | _, clause _ _ body => body.value
  | _, noClause _ _ => .null
  | _, byClause _ _ _ items => items.value
  | _, noByClause _ _ => .list []
  | _, columnRef a => columnValue .null a.value
  | _, qualified t _ a => columnValue t.value a.value
  | _, column x | _, term x | _, comparison x | _, operator _ x | _, numberLiteral x
  | _, textLiteral x => x.value
  | _, empty => .null

end DocQuery.Proofs
