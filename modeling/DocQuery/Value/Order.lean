import DocQuery.Value.Equality

namespace DocQuery.Value

mutual
/-- Whether the first value is less, or the kinds that cannot be ordered. -/
def less : Value → Value → Except (Kind × Kind) Bool
  | text s, text t => .ok (decide (s < t))
  | list xs, list ys => lessItems xs ys
  | tuple xs, tuple ys => lessItems xs ys
  | v, w =>
    match v.number?, w.number? with
    | some x, some y => .ok (x.less y)
    | _, _ => .error (v.kind, w.kind)

def lessItems : List Value → List Value → Except (Kind × Kind) Bool
  | [], ys => .ok (!ys.isEmpty)
  | _ :: _, [] => .ok false
  | x :: xs, y :: ys => if same x y then lessItems xs ys else less x y
end

/-- Whether the first value is greater. -/
def greater (v w : Value) : Except (Kind × Kind) Bool :=
  match less w v with
  | .ok b => .ok b
  | .error (a, b) => .error (b, a)

/-- Puts a value after all that are not greater. -/
def insertSorted (v : Value) : List Value → Except (Kind × Kind) (List Value)
  | [] => .ok [v]
  | w :: ws => do
    if ← less v w then return v :: w :: ws
    return w :: (← insertSorted v ws)

/-- Sorts a list, keeping equal values in their order. -/
def sorted (vs : List Value) : Except (Kind × Kind) (List Value) :=
  vs.foldlM (fun done v => insertSorted v done) []

end DocQuery.Value
