namespace DocQuery.Text

inductive DecodeReason where
  | invalidStart
  | invalidContinuation
  | unexpectedEnd
  | truncated
  | outOfRange
deriving DecidableEq, Repr

def DecodeReason.message : DecodeReason → String
  | invalidStart => "invalid start byte"
  | invalidContinuation => "invalid continuation byte"
  | unexpectedEnd => "unexpected end of data"
  | truncated => "truncated data"
  | outOfRange => "code point not in range(0x110000)"

/-- A failure to decode: the bytes at fault, of which the first is at a given place. -/
structure DecodeError where
  codec : String
  bytes : List UInt8
  place : Nat
  reason : DecodeReason
deriving DecidableEq, Repr

def byteText (b : UInt8) : String :=
  let ds := Nat.toDigits 16 b.toNat
  String.ofList ('0' :: 'x' :: (List.replicate (2 - ds.length) '0' ++ ds))

def DecodeError.message (e : DecodeError) : String :=
  match e.bytes with
  | [b] => s!"'{e.codec}' codec can't decode byte {byteText b} in position {e.place}: {e.reason.message}"
  | bs =>
    s!"'{e.codec}' codec can't decode bytes in position {e.place}-{e.place + bs.length - 1}: {e.reason.message}"

def isContinuation (b : UInt8) : Bool := 0x80 ≤ b && b < 0xc0

/-- The number of bytes after a lead byte. -/
def following? (lead : UInt8) : Option Nat :=
  if lead < 0x80 then some 0
  else if 0xc2 ≤ lead ∧ lead < 0xe0 then some 1
  else if 0xe0 ≤ lead ∧ lead < 0xf0 then some 2
  else if 0xf0 ≤ lead ∧ lead < 0xf5 then some 3
  else none

/-- Whether a byte may come second: the shortest form counts, up to the greatest code point, and
surrogates do not, unless they are let through. -/
def isSecond (surrogates : Bool) (lead b : UInt8) : Bool :=
  isContinuation b &&
    (if lead = 0xe0 then 0xa0 ≤ b
    else if lead = 0xed then surrogates || b < 0xa0
    else if lead = 0xf0 then 0x90 ≤ b
    else if lead = 0xf4 then b < 0x90
    else true)

/-- The bytes that continue a character, up to a number of them. -/
def continuing (surrogates : Bool) (lead : UInt8) (count : Nat) (bs : List UInt8) : List UInt8 :=
  match bs.take count with
  | [] => []
  | b :: more => if isSecond surrogates lead b then b :: more.takeWhile isContinuation else []

/-- The code point of a character. -/
def codePoint (lead : UInt8) (more : List UInt8) : Nat :=
  let top := match more.length with
    | 0 => lead.toNat
    | 1 => lead.toNat % 0x20
    | 2 => lead.toNat % 0x10
    | _ => lead.toNat % 0x08
  more.foldl (fun n b => 0x40 * n + b.toNat % 0x40) top

/-- The character of a code point; a surrogate has none of its own. -/
def charOf (n : Nat) : Char := if n.isValidChar then Char.ofNat n else '�'

/-- Decodes the bytes from a place on. -/
def decodeUtf8From (surrogates : Bool) : Nat → Nat → List UInt8 → Except DecodeError (List Char)
  | 0, _, _ => .ok []
  | _, _, [] => .ok []
  | n + 1, place, lead :: bs =>
    match following? lead with
    | none => .error ⟨"utf-8", [lead], place, .invalidStart⟩
    | some count =>
      let more := continuing surrogates lead count bs
      if more.length = count then do
        let rest ← decodeUtf8From surrogates n (place + 1 + count) (bs.drop count)
        return charOf (codePoint lead more) :: rest
      else if more.length = bs.length then .error ⟨"utf-8", lead :: more, place, .unexpectedEnd⟩
      else .error ⟨"utf-8", lead :: more, place, .invalidContinuation⟩

def decodeUtf8 (bs : List UInt8) : Except DecodeError (List Char) :=
  decodeUtf8From false bs.length 0 bs

def encodeUtf8 (s : String) : List UInt8 := s.toUTF8.toList

end DocQuery.Text
