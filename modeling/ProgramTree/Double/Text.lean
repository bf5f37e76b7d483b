/-
How numbers are written.

The digits come from `Double.shortest`; this module holds the decisions about
their layout, in one record, and the texts of the numbers that have no digits.
-/
import ProgramTree.Double.Shortest

namespace ProgramTree.Double

/-- The decisions in writing a number. -/
structure Layout where
  /-- The point may stand this far left of the first digit. -/
  leastPoint : Int
  /-- The point may stand this far right of the first digit. -/
  greatestPoint : Int
  /-- Digits of the exponent, at the least. -/
  exponentWidth : Nat
  infinity : String
  nan : String
deriving Repr

/-- Numbers are written positionally from `0.0001` up to sixteen digits before
the point, always with a point; exponents have a sign and two digits. -/
def standard : Layout :=
  { leastPoint := -3, greatestPoint := 16, exponentWidth := 2, infinity := "inf", nan := "nan" }

/-- The digits of a decimal, without trailing zeros, and the place of the point
counted from before the first digit. -/
def Decimal.parts (d : Decimal) : List Char × Int :=
  let ds := Nat.toDigits 10 d.digits
  let kept := (ds.reverse.dropWhile (· == '0')).reverse
  (kept, (ds.length : Int) + d.exponent)

/-- Pads a text on the left with zeros. -/
def padZeros (width : Nat) (cs : List Char) : List Char :=
  List.replicate (width - cs.length) '0' ++ cs

/-- Writes digits with the point at `point`, places counted from before the
first digit. -/
def positional (ds : List Char) (point : Int) : List Char :=
  if point ≤ 0 then "0.".toList ++ List.replicate (-point).toNat '0' ++ ds
  else if (ds.length : Int) ≤ point then
    ds ++ List.replicate (point.toNat - ds.length) '0' ++ ".0".toList
  else ds.take point.toNat ++ '.' :: ds.drop point.toNat

/-- Writes digits with the point after the first one, and an exponent. -/
def scientific (l : Layout) (ds : List Char) (point : Int) : List Char :=
  let e := point - 1
  let mantissa := match ds with
    | [] => ['0']
    | [d] => [d]
    | d :: rest => d :: '.' :: rest
  mantissa ++ 'e' :: (if e < 0 then '-' else '+')
    :: padZeros l.exponentWidth (Nat.toDigits 10 e.natAbs)

/-- The absolute value of a finite number. -/
def magnitudeText (l : Layout) (x : Double) : List Char :=
  if x.isZero then "0.0".toList
  else
    let (ds, point) := x.shortest.parts
    if l.leastPoint ≤ point && point ≤ l.greatestPoint then positional ds point
    else scientific l ds point

/-- The text of a number under a layout. -/
def textWith (l : Layout) (x : Double) : String :=
  if x.isNaN then l.nan
  else
    let body := if x.isInfinite then l.infinity else String.ofList (magnitudeText l x)
    if x.negative then "-" ++ body else body

/-- The text of a number. -/
def text (x : Double) : String :=
  textWith standard x

end ProgramTree.Double
