import DocQuery.Value.Basic

namespace DocQuery.Value

def number? : Value → Option Number.Double
  | bool b => some (.ofInt (if b then 1 else 0))
  | int n => some (.ofInt n)
  | real x => some x
  | _ => none

def sameNumber (v w : Value) : Bool :=
  match v.number?, w.number? with
  | some x, some y => x.same y
  | _, _ => false

mutual
def same : Value → Value → Bool
  | null, null => true
  | text s, text t => s == t
  | list xs, list ys => sameItems xs ys
  | tuple xs, tuple ys => sameItems xs ys
  | dict es, dict fs => es.length == fs.length && sameEntries es fs
  | v, w => sameNumber v w

def sameItems : List Value → List Value → Bool
  | [], [] => true
  | x :: xs, y :: ys => same x y && sameItems xs ys
  | _, _ => false

/-- Whether each entry has an equal one in the second list. -/
def sameEntries : List (Value × Value) → List (Value × Value) → Bool
  | [], _ => true
  | (k, v) :: es, fs => fs.any (fun f => same k f.1 && same v f.2) && sameEntries es fs
end

end DocQuery.Value
