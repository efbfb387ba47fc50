import DocQuery.Value.Access

namespace DocQuery

inductive Call where
  | find (collection filter projection : Value)
  | sort (keys : Value)
  | limit (n : Value)
  | aggregate (collection pipeline : Value)
  | query (sql : String)
  | connect (options : Value)
  | close
  | client (uri : String) (options : Value)
  | drop (collection : String)
  | insert (collection : String) (documents : Value)
  | serve (options : Value)

namespace Call

def pairOf (e : Value × Value) : Value := .tuple [e.1, e.2]

/-- The call for the order of a command. -/
def sortOf (command : Entries) : Except Fault (List Call) :=
  match Entries.get? command (.text "sort") with
  | none => .ok []
  | some keys => do return [sort (.list ((← keys.asDict "items").map pairOf))]

def limitOf (command : Entries) : List Call :=
  ((Entries.get? command (.text "limit")).map limit).toList

/-- The calls that run a command: a pipeline, or a search with its order and its limit. -/
def ofCommand (command : Value) : Except Fault (List Call) := do
  let es ← command.asDict "get"
  let collection := Entries.field es "collection"
  match Entries.get? es (.text "pipeline") with
  | some pipeline => return [aggregate collection pipeline]
  | none =>
    let search := find collection (Entries.field es "filter") (Entries.field es "projection")
    return search :: (← sortOf es) ++ limitOf es

end Call

/-- The rows and the documents that queries give. -/
structure Database where
  rows : List Value
  documents : List Value

/-- What is printed, and the calls that are made. -/
structure Report where
  text : String
  calls : List Call

namespace Report

def print (text : String) : Report := ⟨text, []⟩

def call (calls : List Call) : Report := ⟨"", calls⟩

def append (a b : Report) : Report := ⟨a.text ++ b.text, a.calls ++ b.calls⟩

instance : Append Report := ⟨append⟩

end Report

end DocQuery

namespace DocQuery.Compare

def sorted (vs : List Value) : Except Fault (List Value) :=
  match Value.sorted vs with
  | .ok vs => .ok vs
  | .error (a, b) => .error (.notLess a b)

def rows (result : Value) : Except Fault (List Value) := do
  sorted (← (← result.items).mapM (fun row => do return .tuple (← row.items)))

/-- A document without its key. -/
def withoutId : Value → Except Fault Entries
  | .dict es => .ok (es.filter (fun e => !e.1.same (.text "_id")))
  | .list _ => .error .listPop
  | v => .error (.noField v.kind "pop")

def documents (result : Value) : Except Fault (List Value) := do
  sorted (← (← result.items).mapM (fun d => do return .tuple ((← withoutId d).map (·.2))))

/-- Whether rows and documents hold the same values. -/
def agree (rowResult documentResult : Value) : Except Fault Bool := do
  let left ← rows rowResult
  return (Value.list left).same (.list (← documents documentResult))

end DocQuery.Compare
