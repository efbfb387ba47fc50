import DocQuery.Value.Fault

namespace DocQuery.Check

inductive Error where
  | fault (f : Fault)
  | notQuery (k : Kind)
  | tooManyTables
  | noTable (table : String)
  | noColumn (column table : String)
  /-- No table, or more than one, has a selected column. -/
  | selectedNowhere (column : String)
  | selectedTwice (column : String)
  | notColumn (shown : String)
  | duplicate (column : String)
  | joinRequired
  | joinMissing
  | joinTypes
  | unrelated (leftTable leftColumn rightTable rightColumn : String)
  | aggregateValue
  /-- A compared column is not in the table that it names, in no table, or in more than one. -/
  | notInTable (column table : String)
  | testedNowhere (column : String)
  | testedTwice (column : String)
  | badRange
  | badList
  | boundType (column type : String)
  | valueType (column expected actual : String)
  | havingWithoutGroup
  | ungrouped (column : String)
deriving DecidableEq, Repr

namespace Error

def message : Error → String
  | fault f => f.message
  | notQuery k => s!"Unsupported query type: <class '{k.fullName}'>"
  | tooManyTables => "Only 2-table JOIN supported currently"
  | noTable t => s!"Table '{t}' does not exist"
  | noColumn c t => s!"Column '{c}' does not exist in table '{t}'"
  | selectedNowhere c => s!"Column '{c}' not found in any table"
  | selectedTwice c => s!"Ambiguous column '{c}', specify table"
  | notColumn s => s!"Invalid column type: {s}"
  | duplicate c => s!"Duplicate column '{c}' in SELECT list"
  | joinRequired => "JOIN condition required for multiple tables"
  | joinMissing => "JOIN condition not found in WHERE clause"
  | joinTypes => "Type mismatch in JOIN"
  | unrelated t c u d => s!"Invalid JOIN condition: '{t}.{c}' and '{u}.{d}' are not related"
  | aggregateValue => "Invalid HAVING condition value"
  | notInTable c t => s!"Column '{c}' not in table '{t}'"
  | testedNowhere c => s!"Column '{c}' not found"
  | testedTwice c => s!"Ambiguous column '{c}'"
  | badRange => "Invalid BETWEEN syntax"
  | badList => "Invalid IN syntax"
  | boundType c t => s!"Type mismatch for column '{c}'. Expected {t}."
  | valueType c t u => s!"Type mismatch for column '{c}'. Expected {t} but got {u}."
  | havingWithoutGroup => "HAVING clause requires GROUP BY"
  | ungrouped c => s!"Column '{c}' must appear in GROUP BY or be aggregated"

end Error

instance : MonadLift (Except Fault) (Except Error) := ⟨fun x => x.mapError .fault⟩

/-- A tree after checking, with the notes that were left on it also where it is rejected. -/
structure Checked (α : Type) where
  tree : α
  outcome : Except Error Unit

namespace Checked

def accept (a : α) : Checked α := ⟨a, .ok ()⟩

def reject (a : α) (e : Error) : Checked α := ⟨a, .error e⟩

/-- Goes on with the next check if there is no failure. -/
def andThen (c : Checked α) (next : α → Checked α) : Checked α :=
  match c.outcome with
  | .ok () => next c.tree
  | .error e => reject c.tree e

def map (f : α → β) (c : Checked α) : Checked β := ⟨f c.tree, c.outcome⟩

end Checked

end DocQuery.Check
