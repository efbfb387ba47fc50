import DocQuery.Sql.Syntax
import DocQuery.Value.Basic

namespace DocQuery.Sql

def optionalText : Option String → Value
  | some s => .text s
  | none => .null

def ColumnRef.toValue (c : ColumnRef) : Value :=
  .doc [("table", optionalText c.table?), ("column", .text c.name)]

def Literal.toValue : Literal → Value
  | .number n => .int n
  | .text s => .text s

def Relation.toValue (r : Relation) : Value := .text r.symbol.spelling

def Aggregate.toValue : Aggregate → Value
  | .countAll => .aggregate "COUNT" (.text "*")
  | .call f c => .aggregate f.keyword.spelling (.text c)

def Operand.toValue : Operand → Value
  | .column c => c.toValue
  | .literal l => l.toValue

def SelectItem.toValue : SelectItem → Value
  | .column c => c.toValue
  | .aggregate a => a.toValue

def SelectList.toValue : SelectList → Value
  | .all => .list [.text "*"]
  | .items x xs => .list ((x :: xs).map SelectItem.toValue)

def Direction.keyword : Direction → Keyword
  | .asc => .asc
  | .desc => .desc

def OrderItem.toValue (o : OrderItem) : Value :=
  .orderItem (.text o.column) o.direction.keyword.spelling

def optionalNumber : Option Nat → Value
  | some n => .int n
  | none => .null

def textList (xs : List String) : Value := .list (xs.map .text)

mutual
def Condition.toValue : Condition → Value
  | .compare c r x => .comparison c.toValue r.toValue x.toValue
  | .aggregate a r l => .comparison a.toValue r.toValue l.toValue
  | .between c low high =>
    .comparison (.text c) (.text "BETWEEN") (.tuple [low.toValue, high.toValue])
  | .inList c l ls => .comparison c.toValue (.text "IN") (.list ((l :: ls).map Literal.toValue))
  | .inQuery c q => .comparison c.toValue (.text "IN_SUBQUERY") (statementValue q)
  | .connect l w r => .logical l.toValue (.text w) r.toValue

def optionalCondition : Option Condition → Value
  | some c => c.toValue
  | none => .null

def sourceTable : Source Condition → Value
  | .table a => .text a
  | .join a _ _ => .text a
  | .tables a b more => textList (a :: b :: more)

def sourceJoins : Source Condition → Value
  | .join _ b c => .list [.doc [("table", .text b), ("condition", c.toValue)]]
  | _ => .list []

def statementValue : Statement Condition → Value
  | ⟨items, source, condition, groupBy, having, orderBy, limit⟩ =>
    .select {
      columns := items.toValue
      table := sourceTable source
      joins := sourceJoins source
      condition := optionalCondition condition
      groupBy := textList groupBy
      having := optionalCondition having
      orderBy := .list (orderBy.map OrderItem.toValue)
      limit := optionalNumber limit
      offset := .null
      join? := none
      filter? := none
      resolved? := none }
end

def Statement.toValue (q : Query) : Value := statementValue q

end DocQuery.Sql
