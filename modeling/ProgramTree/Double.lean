/-
Binary64 numbers, kept as their bits.

This library hardly computes with floating point: numbers are read from text,
stored in literals, compared when they are dictionary keys, and written back; a
cursor that is no whole number can move on by one. So a number is its 64 bits and
every question about it is answered in `Nat` and `Int`, where a proof can follow:
the significand and the power of two it stands for, and the nearest number to a
given decimal.
-/

namespace ProgramTree

/-- A binary64 number, given by its bits. -/
structure Double where
  bits : UInt64
deriving DecidableEq, Repr, Inhabited

namespace Double

/-! ## Reading the bits -/

/-- The sign bit. -/
def negative (x : Double) : Bool :=
  Nat.pow 2 63 ≤ x.bits.toNat

/-- The eleven bits of the biased exponent. -/
def exponentBits (x : Double) : Nat :=
  x.bits.toNat / Nat.pow 2 52 % Nat.pow 2 11

/-- The fifty-two bits of the fraction. -/
def fractionBits (x : Double) : Nat :=
  x.bits.toNat % Nat.pow 2 52

/-- Neither a number nor an infinity. -/
def isNaN (x : Double) : Bool :=
  x.exponentBits == 2047 && x.fractionBits != 0

/-- One of the two infinities. -/
def isInfinite (x : Double) : Bool :=
  x.exponentBits == 2047 && x.fractionBits == 0

/-- One of the two zeros. -/
def isZero (x : Double) : Bool :=
  x.exponentBits == 0 && x.fractionBits == 0

/-- The integer significand of a finite number: its absolute value is
`significand * 2 ^ power`. -/
def significand (x : Double) : Nat :=
  if x.exponentBits = 0 then x.fractionBits else Nat.pow 2 52 + x.fractionBits

/-- The power of two that goes with `significand`. -/
def power (x : Double) : Int :=
  if x.exponentBits = 0 then -1074 else (x.exponentBits : Int) - 1075

/-! ## Building a number -/

/-- The number with this sign, biased exponent and fraction. -/
def ofFields (negative : Bool) (exponent fraction : Nat) : Double :=
  ⟨((if negative then Nat.pow 2 63 else 0) + exponent * Nat.pow 2 52 + fraction).toUInt64⟩

/-- The infinity of this sign. -/
def infinity (negative : Bool) : Double :=
  ofFields negative 2047 0

/-- The quiet number that is not a number. -/
def nan : Double :=
  ofFields false 2047 (Nat.pow 2 51)

/-- Divides and rounds to the nearest integer, a half to the even neighbour. -/
def roundDiv (num den : Nat) : Nat :=
  let q := num / den
  let r := num % den
  if 2 * r < den then q
  else if den < 2 * r then q + 1
  else if q % 2 = 0 then q else q + 1

/-- The power of two at which `num / den` has a significand of 53 bits, but
never below the least power of all. -/
def scaleOf (num den : Nat) : Int :=
  let guess : Int := (Nat.log2 num : Int) - (Nat.log2 den : Int) - 52
  let low := num * Nat.pow 2 (-guess).toNat < den * Nat.pow 2 (guess.toNat + 52)
  max (-1074) (if low then guess - 1 else guess)

/-- The number nearest to `num / den`, a half going to the even significand. -/
def ofRatio (negative : Bool) (num den : Nat) : Double :=
  if num = 0 then ofFields negative 0 0
  else
    let e := scaleOf num den
    let q := roundDiv (num * Nat.pow 2 (-e).toNat) (den * Nat.pow 2 e.toNat)
    let (q, e) := if q = Nat.pow 2 53 then (Nat.pow 2 52, e + 1) else (q, e)
    if q < Nat.pow 2 52 then ofFields negative 0 q
    else if 971 < e then infinity negative
    else ofFields negative (e + 1075).toNat (q - Nat.pow 2 52)

/-- The number nearest to `digits * 10 ^ exponent`. Decimals far outside the
range are settled by their magnitude alone. -/
def ofDecimal (negative : Bool) (digits : Nat) (exponent : Int) : Double :=
  let magnitude : Int := (Nat.toDigits 10 digits).length + exponent
  if digits = 0 || magnitude < -330 then ofFields negative 0 0
  else if 330 < magnitude then infinity negative
  else ofRatio negative (digits * Nat.pow 10 exponent.toNat) (Nat.pow 10 (-exponent).toNat)

/-- A whole number. -/
def ofInt (n : Int) : Double :=
  ofRatio (n < 0) n.natAbs 1

/-! ## Reading decimal text -/

/-- The value of a run of decimal digits; `none` if another character stands
among them. -/
def digitsValue? (cs : List Char) : Option Nat :=
  cs.foldl (fun acc c => acc.bind fun n =>
    if c.isDigit then some (10 * n + (c.toNat - 48)) else none) (some 0)

/-- A run of digits with a sign that may be missing. -/
def signedValue? : List Char → Option Int
  | '-' :: cs => if cs.isEmpty then none else (digitsValue? cs).map fun n => -(n : Int)
  | '+' :: cs => if cs.isEmpty then none else (digitsValue? cs).map fun n => (n : Int)
  | cs => if cs.isEmpty then none else (digitsValue? cs).map fun n => (n : Int)

/-- The number written by digits, a point and an exponent. -/
def ofPlain? (negative : Bool) (cs : List Char) : Option Double :=
  let isMark := fun c : Char => c == 'e' || c == 'E'
  let body := cs.takeWhile (fun c => !isMark c)
  let tail := (cs.dropWhile (fun c => !isMark c)).drop 1
  let whole := body.takeWhile (· != '.')
  let fraction := (body.dropWhile (· != '.')).drop 1
  let exponent? : Option Int := if cs.any isMark then signedValue? tail else some 0
  if whole.isEmpty && fraction.isEmpty then none
  else
    match digitsValue? (whole ++ fraction), exponent? with
    | some d, some e => some (ofDecimal negative d (e - (fraction.length : Int)))
    | _, _ => none

/-- The number without its sign: a name of infinity, `nan`, or a decimal. -/
def ofUnsigned? (negative : Bool) (cs : List Char) : Option Double :=
  let word := String.ofList (cs.map Char.toLower)
  if word == "inf" || word == "infinity" then some (infinity negative)
  else if word == "nan" then some nan
  else ofPlain? negative cs

/-- Reads decimal text such as `1.5`, `-0.0`, `1e16`, `inf` or `nan`. -/
def ofText? (s : String) : Option Double :=
  match s.toList with
  | '-' :: cs => ofUnsigned? true cs
  | '+' :: cs => ofUnsigned? false cs
  | cs => ofUnsigned? false cs

/-! ## Comparing -/

/-- The exact value as a fraction `num / den`, for a finite number. -/
def ratio (x : Double) : Int × Nat :=
  let m : Int := if x.negative then -(x.significand : Int) else x.significand
  (m * Nat.pow 2 x.power.toNat, Nat.pow 2 (-x.power).toNat)

/-- The number nearest to the sum with a whole number. -/
def addInt (x : Double) (n : Int) : Double :=
  if x.isNaN || x.isInfinite then x
  else
    let sum := x.ratio.1 + n * x.ratio.2
    ofRatio (sum < 0) sum.natAbs x.ratio.2

/-- Numerical equality: the zeros are equal, nothing equals a NaN. -/
def same (x y : Double) : Bool :=
  if x.isNaN || y.isNaN then false
  else if x.isZero then y.isZero
  else x.bits == y.bits

/-- Numerical order; nothing is below or above a NaN. -/
def below (x y : Double) : Bool :=
  if x.isNaN || y.isNaN then false
  else if x.isInfinite || y.isInfinite then rank x < rank y
  else x.ratio.1 * y.ratio.2 < y.ratio.1 * x.ratio.2
where
  /-- Infinities stand outside all numbers. -/
  rank (x : Double) : Int :=
    if !x.isInfinite then 0 else if x.negative then -1 else 1

/-- Numerical equality with an integer. -/
def sameInt (x : Double) (n : Int) : Bool :=
  if x.isNaN || x.isInfinite then false
  else x.ratio.1 == n * x.ratio.2

end Double

end ProgramTree
