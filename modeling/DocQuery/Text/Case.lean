import DocQuery.Text.CaseTables

namespace DocQuery.Text

def shiftBy (runs : List CaseRun) (c : Char) : Char :=
  match runs.find? (·.covers c.toNat) with
  | some r => Char.ofNat (c.toNat + r.shift).toNat
  | none => c

def upperChar (c : Char) : List Char :=
  match upperSequences.lookup c.toNat with
  | some ns => ns.map Char.ofNat
  | none => [shiftBy upperRuns c]

def upper (s : String) : String := String.ofList (s.toList.flatMap upperChar)

def isCased (c : Char) : Bool := casedRanges.contains c.toNat

def isCaseIgnorable (c : Char) : Bool := caseIgnorableRanges.contains c.toNat

/-- Whether the first character that counts for case has one. -/
def meetsCased (cs : List Char) : Bool :=
  match cs.dropWhile isCaseIgnorable with
  | c :: _ => isCased c
  | [] => false

/-- The lower-case form of `c` between the characters before it, nearest first, and those after. -/
def lowerAt (before : List Char) (c : Char) (after : List Char) : List Char :=
  if c = 'Σ' then (if meetsCased before && !meetsCased after then ['ς'] else ['σ'])
  else if c = 'İ' then ['i', Char.ofNat 0x307]
  else [shiftBy lowerRuns c]

def lowerFrom (before : List Char) : List Char → List Char
  | [] => []
  | c :: rest => lowerAt before c rest ++ lowerFrom (c :: before) rest

def lower (s : String) : String := String.ofList (lowerFrom [] s.toList)

end DocQuery.Text
