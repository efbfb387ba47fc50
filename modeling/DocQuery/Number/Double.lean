namespace DocQuery.Number

/-- A finite number is `mantissa * 2 ^ exponent`. -/
inductive Double where
  | nan
  | infinite (negative : Bool)
  | finite (negative : Bool) (mantissa : Nat) (exponent : Int)
deriving DecidableEq, Repr

namespace Double

def precision : Nat := 53

def minExponent : Int := -1074

def maxExponent : Int := 971

def pow2 (e : Int) : Nat := Nat.pow 2 e.toNat

def pow10 (e : Int) : Nat := Nat.pow 10 e.toNat

/-- The quotient rounded to the nearest integer, a half to the even one. -/
def roundDiv (num den : Nat) : Nat :=
  let q := num / den
  let twice := 2 * (num % den)
  if twice < den then q else if twice > den then q + 1 else if q % 2 = 0 then q else q + 1

/-- `num / den / 2 ^ e`, rounded. -/
def scaled (num den : Nat) (e : Int) : Nat := roundDiv (num * pow2 (-e)) (den * pow2 e)

/-- Packs a rounded mantissa, which may have reached the next power of two. -/
def pack (negative : Bool) (m : Nat) (e : Int) : Double :=
  let (m, e) := if m < Nat.pow 2 precision then (m, e) else (m / 2, e + 1)
  if e > maxExponent then infinite negative else finite negative m e

/-- The exponent at which `num / den` has `precision` bits before the point. -/
def exponentOf (num den : Nat) : Int :=
  let guess : Int := (Nat.log2 num : Int) - Nat.log2 den - (precision - 1 : Nat)
  let guess := if num * pow2 (-guess) < den * pow2 guess * Nat.pow 2 (precision - 1) then guess - 1
    else guess
  max guess minExponent

def ofFraction (negative : Bool) (num den : Nat) : Double :=
  if num = 0 then finite negative 0 minExponent
  else
    let e := exponentOf num den
    pack negative (scaled num den e) e

/-- The number nearest to `digits * 10 ^ e`. -/
def ofDecimal (negative : Bool) (digits : Nat) (e : Int) : Double :=
  let size : Int := (Nat.toDigits 10 digits).length + e
  if digits = 0 ∨ size < -330 then finite negative 0 minExponent
  else if size > 330 then infinite negative
  else ofFraction negative (digits * pow10 e) (pow10 (-e))

/-- A positive fraction with the bounds of the fractions that round to it, over one denominator. -/
structure Rounding where
  value : Nat
  low : Nat
  high : Nat
  den : Nat
  closed : Bool

def rounding (m : Nat) (e : Int) : Rounding :=
  let unit := pow2 e
  let lowGap := if m = Nat.pow 2 (precision - 1) ∧ e > minExponent then 1 else 2
  { value := 4 * m * unit, low := (4 * m - lowGap) * unit, high := (4 * m + 2) * unit
    den := 4 * pow2 (-e), closed := m % 2 = 0 }

/-- Whether `c * 10 ^ e` rounds to the value. -/
def Rounding.covers (r : Rounding) (c : Nat) (e : Int) : Bool :=
  let x := c * pow10 e * r.den
  let low := r.low * pow10 (-e)
  let high := r.high * pow10 (-e)
  if r.closed then low ≤ x && x ≤ high else low < x && x < high

/-- The nearer neighbour of the value among the multiples of `10 ^ e` that round to it. -/
def Rounding.neighbour? (r : Rounding) (e : Int) : Option Nat :=
  let num := r.value * pow10 (-e)
  let den := r.den * pow10 e
  let below := num / den
  let nearest := roundDiv num den
  if r.covers nearest e then some nearest
  else if r.covers below e then some below
  else if r.covers (below + 1) e then some (below + 1)
  else none

/-- The least `e` from a start with `value < 10 ^ e`. -/
def Rounding.magnitude (r : Rounding) : Nat → Int → Int
  | 0, e => e
  | n + 1, e => if r.value * pow10 (-e) < r.den * pow10 e then e else magnitude r n (e + 1)

/-- The first grid, from one digit to seventeen, that has a number which rounds to the value. -/
def Rounding.shortest (r : Rounding) (top : Int) : Nat → Nat → Nat × Int
  | 0, _ => (0, 0)
  | n + 1, k =>
    match r.neighbour? (top - k) with
    | some c => (c, top - k)
    | none => shortest r top n (k + 1)

/-- The digits without trailing zeros, and the exponent of the last of them. -/
def trimZeros : Nat → Nat × Int → Nat × Int
  | 0, p => p
  | n + 1, (c, e) => if c % 10 = 0 ∧ c ≠ 0 then trimZeros n (c / 10, e + 1) else (c, e)

def zeros (n : Nat) : List Char := List.replicate n '0'

/-- Positional notation for numbers from `10 ^ -4` to below `10 ^ 16`, else an exponent with a sign
and at least two digits. -/
def layout (digits : List Char) (point : Int) : List Char :=
  let n := digits.length
  if -4 < point ∧ point ≤ 16 then
    if point ≤ 0 then '0' :: '.' :: zeros (-point).toNat ++ digits
    else if point.toNat ≥ n then digits ++ zeros (point.toNat - n) ++ ['.', '0']
    else digits.take point.toNat ++ '.' :: digits.drop point.toNat
  else
    let e := point - 1
    let body := if n = 1 then digits else digits.take 1 ++ '.' :: digits.drop 1
    let size := Nat.toDigits 10 e.natAbs
    body ++ ['e', if e < 0 then '-' else '+'] ++ zeros (2 - size.length) ++ size

def magnitudeText (m : Nat) (e : Int) : List Char :=
  if m = 0 then ['0', '.', '0']
  else
    let r := rounding m e
    let (c, e10) := trimZeros 20 (r.shortest (r.magnitude 700 (-330)) 17 1)
    let digits := Nat.toDigits 10 c
    layout digits (digits.length + e10)

def signed (negative : Bool) (cs : List Char) : String :=
  String.ofList (if negative then '-' :: cs else cs)

/-- The shortest decimal that reads back as the number. -/
def text : Double → String
  | nan => "nan"
  | infinite negative => signed negative "inf".toList
  | finite negative m e => signed negative (magnitudeText m e)

/-- Equality of numbers: no number equals `nan`, and the two zeros are equal. -/
def same : Double → Double → Bool
  | infinite a, infinite b => a == b
  | finite a m e, finite b m' e' =>
    m * pow2 (e - e') == m' * pow2 (e' - e) && (m == 0 || a == b)
  | _, _ => false

/-- An integer, exactly. -/
def ofInt (n : Int) : Double := finite (n < 0) n.natAbs 0

def signedMantissa (negative : Bool) (m : Nat) : Int := if negative then -m else m

/-- The order of numbers, in which `nan` has no place. -/
def less : Double → Double → Bool
  | nan, _ | _, nan => false
  | infinite a, infinite b => a && !b
  | infinite a, finite .. => a
  | finite .., infinite b => !b
  | finite a m e, finite b m' e' =>
    decide (signedMantissa a m * pow2 (e - e') < signedMantissa b m' * pow2 (e' - e))

end Double

end DocQuery.Number
