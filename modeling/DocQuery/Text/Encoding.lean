import DocQuery.Text.Utf8

namespace DocQuery.Text

inductive ByteOrder where
  | big | little
deriving DecidableEq, Repr

inductive Encoding where
  | utf8
  | utf16 (order : ByteOrder)
  | utf32 (order : ByteOrder)
deriving DecidableEq, Repr

namespace Encoding

def orderName : ByteOrder → String
  | .big => "be"
  | .little => "le"

def name : Encoding → String
  | utf8 => "utf-8"
  | utf16 o => "utf-16-" ++ orderName o
  | utf32 o => "utf-32-" ++ orderName o

/-- The encoding of a text, and the length of its byte order mark. -/
def detect (bs : List UInt8) : Encoding × Nat :=
  match bs with
  | 0 :: 0 :: 0xfe :: 0xff :: _ => (utf32 .big, 4)
  | 0xff :: 0xfe :: 0 :: 0 :: _ => (utf32 .little, 4)
  | 0xfe :: 0xff :: _ => (utf16 .big, 2)
  | 0xff :: 0xfe :: _ => (utf16 .little, 2)
  | 0xef :: 0xbb :: 0xbf :: _ => (utf8, 3)
  | 0 :: b :: _ :: _ :: _ => (if b = 0 then utf32 .big else utf16 .big, 0)
  | _ :: 0 :: c :: d :: _ => (if c = 0 ∧ d = 0 then utf32 .little else utf16 .little, 0)
  | [0, _] => (utf16 .big, 0)
  | [_, 0] => (utf16 .little, 0)
  | _ => (utf8, 0)

def word (order : ByteOrder) (a b : Nat) : Nat :=
  match order with
  | .big => 0x100 * a + b
  | .little => a + 0x100 * b

/-- The units of UTF-16, and the byte left over. -/
def units (order : ByteOrder) : List UInt8 → List Nat × List UInt8
  | a :: b :: bs =>
    let (us, rest) := units order bs
    (word order a.toNat b.toNat :: us, rest)
  | bs => ([], bs)

def isHigh (u : Nat) : Bool := 0xd800 ≤ u && u < 0xdc00

def isLow (u : Nat) : Bool := 0xdc00 ≤ u && u < 0xe000

/-- The characters of units; a surrogate without its pair stands for no character of its own. -/
def ofUnits : List Nat → List Char
  | u :: v :: us =>
    if isHigh u && isLow v then
      charOf (0x10000 + 0x400 * (u - 0xd800) + (v - 0xdc00)) :: ofUnits us
    else charOf u :: ofUnits (v :: us)
  | [u] => [charOf u]
  | [] => []

/-- The code points of UTF-32 from a place on. -/
def points (order : ByteOrder) : Nat → List UInt8 → Except DecodeError (List Char)
  | _, [] => .ok []
  | place, a :: b :: c :: d :: bs => do
    let n := match order with
      | .big => 0x10000 * word .big a.toNat b.toNat + word .big c.toNat d.toNat
      | .little => word .little a.toNat b.toNat + 0x10000 * word .little c.toNat d.toNat
    if n < 0x110000 then return charOf n :: (← points order (place + 4) bs)
    else .error ⟨name (utf32 order), [a, b, c, d], place, .outOfRange⟩
  | place, bs => .error ⟨name (utf32 order), bs, place, .truncated⟩

def decodeAs (mark : Nat) (bs : List UInt8) : Encoding → Except DecodeError (List Char)
  | utf8 => decodeUtf8From true bs.length 0 bs
  | utf16 o =>
    match units o bs with
    | (us, []) => .ok (ofUnits us)
    | (us, rest) => .error ⟨name (utf16 o), rest, mark + 2 * us.length, .truncated⟩
  | utf32 o => points o mark bs

/-- Decodes a text in the encoding that its start shows, without its byte order mark. -/
def decode (bs : List UInt8) : Except DecodeError (List Char) :=
  let (encoding, mark) := detect bs
  decodeAs mark (bs.drop mark) encoding

end Encoding

end DocQuery.Text
