import DocQuery.Value.Fault

namespace DocQuery.Command

inductive Error where
  | fault (f : Fault)
  /-- No comparison of two columns joins the tables. -/
  | noJoin
  | ambiguous (column : String)
  | notQuery (k : Kind)
  | notCondition (k : Kind)
  | badConnective (word : String)
  | badRelation (symbol : String)
  /-- A column without a table is looked for where no schema is known. -/
  | noSchema
deriving DecidableEq, Repr

namespace Error

def message : Error → String
  | fault f => f.message
  | noJoin => "JOIN condition not found"
  | ambiguous c => s!"Ambiguous column '{c}' in JOIN"
  | notQuery k => s!"Unsupported AST node: <class '{k.fullName}'>"
  | notCondition k => s!"Unknown filter node: <class '{k.fullName}'>"
  | badConnective w => s!"Unknown logical operator: {w}"
  | badRelation s => s!"Unknown comparison operator: {s}"
  | noSchema => "'MongoDBGenerator' object has no attribute 'schema'"

end Error

instance : MonadLift (Except Fault) (Except Error) := ⟨fun x => x.mapError .fault⟩

end DocQuery.Command
