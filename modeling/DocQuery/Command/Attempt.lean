import DocQuery.Command.Simplify

namespace DocQuery.Command

/-- The tests of a field with the members sorted, unless they have no order. -/
def testsSoFar (v : Value) : Value × Bool :=
  match sortTests v with
  | .ok w => (w, true)
  | .error _ => (v, false)

mutual
/-- A filter with its lists of members sorted up to the first that has no order, and whether there
is none such. -/
def sortedSoFar : Value → Value × Bool
  | .dict es => ((entriesSoFar es).1 |> .dict, (entriesSoFar es).2)
  | .list xs => ((itemsSoFar xs).1 |> .list, (itemsSoFar xs).2)
  | v => (v, true)

def itemsSoFar : List Value → List Value × Bool
  | [] => ([], true)
  | x :: xs =>
    let (x, done) := sortedSoFar x
    if done then
      let (xs, done) := itemsSoFar xs
      (x :: xs, done)
    else (x :: xs, false)

def entriesSoFar : List (Value × Value) → List (Value × Value) × Bool
  | [] => ([], true)
  | (k, v) :: es =>
    let (v, done) := if isMembership v then testsSoFar v else sortedSoFar v
    if done then
      let (es, done) := entriesSoFar es
      ((k, v) :: es, done)
    else ((k, v) :: es, false)
end

/-- Puts merged tests in the place of the first test of each field; `seen` holds the fields that
have come before. -/
def putBackEntries (merged : Entries) : List Value → Entries → List Value × Entries
  | seen, [] => (seen, [])
  | seen, (k, v) :: es =>
    let w := if seen.any k.same then v else (Entries.get? merged k).getD v
    let (seen, es) := putBackEntries merged (k :: seen) es
    (seen, (k, w) :: es)

def putBack (merged : Entries) : List Value → List Value → List Value
  | _, [] => []
  | seen, .dict es :: cs =>
    let (seen, es) := putBackEntries merged seen es
    .dict es :: putBack merged seen cs
  | seen, c :: cs => c :: putBack merged seen cs

/-- The conditions of a conjunction after their tests were merged and sorted. -/
def conditionsAfter (conditions : List Value) : List Value :=
  match merge conditions with
  | .ok merged => putBack (entriesSoFar merged).1 [] conditions
  | .error _ => conditions

/-- Whether alternatives stay a list of alternatives. -/
def stayAlternatives (alternatives_ : Value) : Bool :=
  match (do alternatives (← flatten alternatives_) : Except Fault Value) with
  | .ok (.dict es) => Entries.has es (.text "$or")
  | _ => false

/-- The filter that a command had, after an attempt to simplify it. Alternatives that become a list
of values or a bound are left as they were. -/
def filterAfter (filter : Value) : Value :=
  match filter with
  | .dict es =>
    match Entries.get? es (.text "$or"), Entries.get? es (.text "$and") with
    | some v, _ => if stayAlternatives v then (sortedSoFar filter).1 else filter
    | none, some (.list cs) => .dict (Entries.put es (.text "$and") (.list (conditionsAfter cs)))
    | none, _ => (sortedSoFar filter).1
  | v => v

/-- A command after a failed attempt to simplify it. -/
def residue (command : Value) : Value :=
  match command with
  | .dict es =>
    match Entries.get? es (.text "filter") with
    | some f => setEntry "filter" (filterAfter f) command
    | none => command
  | v => v

/-- Whether a document is the identifier of a column and not a list of tests. -/
def isIdentifier (es : Entries) : Bool := Entries.has es (.text "column")

/-- The identifier with which the first condition of a conjunction compares a field. -/
def comparedIdentifier? : Value → Option Value
  | .dict [(_, .list (.dict [(_, .dict es)] :: _))] => if isIdentifier es then some (.dict es) else none
  | _ => none

/-- Exchanges the identifier of the first condition, or of a filter that was a conjunction. -/
def exchangeIdentifier (new : Value) : Value → Value
  | .dict [(key, .list (.dict [(field, .dict es)] :: cs))] =>
    .dict [(key, .list (.dict [(field, if isIdentifier es then new else .dict es)] :: cs))]
  | .dict ((field, .dict es) :: rest) =>
    .dict ((field, if isIdentifier es then new else .dict es) :: rest)
  | v => v

end DocQuery.Command
