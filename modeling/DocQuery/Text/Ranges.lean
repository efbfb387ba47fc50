namespace DocQuery.Text

abbrev Ranges := List (Nat × Nat)

/-- The range that holds `n`. The ranges ascend, so the search stops at the first one above `n`. -/
def Ranges.find? : Ranges → Nat → Option (Nat × Nat)
  | [], _ => none
  | (lo, hi) :: rest, n =>
    if n < lo then none else if n ≤ hi then some (lo, hi) else find? rest n

def Ranges.contains (rs : Ranges) (n : Nat) : Bool := (rs.find? n).isSome

def blankRanges : Ranges :=
  [(0x9, 0xd), (0x1c, 0x20), (0x85, 0x85), (0xa0, 0xa0), (0x1680, 0x1680), (0x2000, 0x200a),
   (0x2028, 0x2029), (0x202f, 0x202f), (0x205f, 0x205f), (0x3000, 0x3000)]

def isBlank (c : Char) : Bool := blankRanges.contains c.toNat

def dropBlanks (cs : List Char) : List Char := cs.dropWhile isBlank

/-- The text without the white space at its two ends. -/
def trim (cs : List Char) : List Char := (dropBlanks (dropBlanks cs).reverse).reverse

def strip (s : String) : String := String.ofList (trim s.toList)

/-- Carriage returns, alone or before a line feed, become line feeds. -/
def lineFeeds : List Char → List Char
  | '\r' :: '\n' :: cs => '\n' :: lineFeeds cs
  | '\r' :: cs => '\n' :: lineFeeds cs
  | c :: cs => c :: lineFeeds cs
  | [] => []

/-- The lines of a text without their line feeds. A last line may lack its own. -/
def lines : List Char → List (List Char)
  | [] => []
  | c :: cs =>
    if c = '\n' then [] :: lines cs
    else
      match lines cs with
      | [] => [[c]]
      | l :: ls => (c :: l) :: ls

end DocQuery.Text
