import DocQuery.Proofs.Values

namespace DocQuery.Proofs

/-- The type within which a value is compared; integers and reals share one. -/
def orderType (v : Value) : Kind :=
  match v.kind with
  | .real => .int
  | k => k

def equals (v w : Value) : Bool := orderType v == orderType w && v.same w

/-- Whether a value comes before another one of its type. -/
def before (v w : Value) : Bool := orderType v == orderType w && (v.less w).toOption.getD false

def membersOf : Value → List Value
  | .list vs => vs
  | _ => []

/-- Whether a value passes the test of an operator. -/
def passes (x : Value) (operator : String) (v : Value) : Bool :=
  match operator with
  | "$ne" => !equals x v
  | "$gt" => before v x
  | "$gte" => before v x || equals x v
  | "$lt" => before x v
  | "$lte" => before x v || equals x v
  | "$in" => (membersOf v).any (equals x)
  | _ => false

def passesTest (x : Value) : Value × Value → Bool
  | (.text operator, v) => passes x operator v
  | _ => false

def isOperator : Value → Bool
  | .text s => s.toList.head? == some '$'
  | _ => false

/-- Whether the value of a field is as a filter asks: it passes all tests of a document of tests,
and equals any other value. -/
def suits (x v : Value) : Bool :=
  match v with
  | .dict (t :: ts) =>
    if isOperator t.1 then (t :: ts).all (passesTest x) else equals x (.dict (t :: ts))
  | v => equals x v

mutual
/-- Whether a filter selects the document that holds `field name` under each name. -/
def holds (field : String → Value) : Value → Bool
  | .dict es => holdsEntries field es
  | _ => false

def holdsEntries (field : String → Value) : List (Value × Value) → Bool
  | [] => true
  | (.text key, .list cs) :: es =>
    (if key = "$and" then holdsAll field cs
      else if key = "$or" then holdsAny field cs
      else suits (field key) (.list cs)) && holdsEntries field es
  | (.text key, v) :: es => suits (field key) v && holdsEntries field es
  | _ :: _ => false

def holdsAll (field : String → Value) : List Value → Bool
  | [] => true
  | c :: cs => holds field c && holdsAll field cs

def holdsAny (field : String → Value) : List Value → Bool
  | [] => false
  | c :: cs => holds field c || holdsAny field cs
end

theorem holds_all (field : String → Value) (cs : List Value) :
    holdsAll field cs = cs.all (holds field) := by
  induction cs with
  | nil => simp [holdsAll]
  | cons c cs ih => simp [holdsAll, ih]

theorem holds_any (field : String → Value) (cs : List Value) :
    holdsAny field cs = cs.any (holds field) := by
  induction cs with
  | nil => simp [holdsAny]
  | cons c cs ih => simp [holdsAny, ih]

/-- A filter is the conjunction of its entries. -/
theorem holds_cons (field : String → Value) (k : String) (v : Value) (es : Entries) :
    holds field (.dict ((.text k, v) :: es)) =
      (holds field (.dict [(.text k, v)]) && holds field (.dict es)) := by
  cases v <;> simp [holds, holdsEntries]

end DocQuery.Proofs
