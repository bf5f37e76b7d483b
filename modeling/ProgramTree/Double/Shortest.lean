/-
The fewest decimal digits that read back as a given number.

A finite number `m * 2 ^ q` is the nearest number to every real of an interval
around it: half a step up, half a step down, a quarter step down when `m` is
the least significand of its binade. The ends belong to it when `m` is even.
For one digit, two digits, ... the two neighbours of the number on that decimal
grid are tried; the first grid with a neighbour inside the interval gives the
digits, and of two the nearer one. All arithmetic is exact, in `Nat`.
-/
import ProgramTree.Double

namespace ProgramTree.Double

/-- A positive decimal `digits * 10 ^ exponent`. -/
structure Decimal where
  digits : Nat
  exponent : Int
deriving DecidableEq, Repr, Inhabited

/-- The reals that round to a number, in quarter steps: `low`, the number
itself and `high`, each to be read times `2 ^ power`. -/
structure Interval where
  low : Nat
  mid : Nat
  high : Nat
  power : Int
  closed : Bool
deriving DecidableEq, Repr

/-- The interval of reals that round to a finite number. -/
def interval (x : Double) : Interval :=
  let m := x.significand
  let narrow := x.fractionBits == 0 && 1 < x.exponentBits
  { low := if narrow then 4 * m - 1 else 4 * m - 2
    mid := 4 * m
    high := 4 * m + 2
    power := x.power - 2
    closed := m % 2 == 0 }

/-- Scales `n * 2 ^ b` and `c * 10 ^ k` to a common unit, so that they compare
as natural numbers. -/
def common (n : Nat) (b : Int) (c : Nat) (k : Int) : Nat × Nat :=
  (n * Nat.pow 2 b.toNat * Nat.pow 10 (-k).toNat, c * Nat.pow 10 k.toNat * Nat.pow 2 (-b).toNat)

/-- Whether `c * 10 ^ k` lies in the interval. -/
def Interval.contains (i : Interval) (c : Nat) (k : Int) : Bool :=
  let (low, x) := common i.low i.power c k
  let (high, y) := common i.high i.power c k
  if i.closed then decide (low ≤ x) && decide (y ≤ high)
  else decide (low < x) && decide (y < high)

/-- Twice the distance from the number to `c * 10 ^ k`, in the common unit. -/
def Interval.distance (i : Interval) (c : Nat) (k : Int) : Nat :=
  let (a, b) := common i.mid i.power c k
  (a - b) + (b - a)

/-- The greatest `e` with `10 ^ e` at most `num / den`. -/
def floorLog10 (num den : Nat) : Int :=
  let guess : Int :=
    ((Nat.toDigits 10 num).length : Int) - ((Nat.toDigits 10 den).length : Int)
  if den * Nat.pow 10 guess.toNat ≤ num * Nat.pow 10 (-guess).toNat then guess else guess - 1

/-- The neighbour of the number on the grid of multiples of `10 ^ k` that lies
in its interval; of two the nearer, and the even one when both are as near. -/
def Interval.onGrid? (i : Interval) (c : Nat) (k : Int) : Option Decimal :=
  match i.contains c k, i.contains (c + 1) k with
  | false, false => none
  | true, false => some ⟨c, k⟩
  | false, true => some ⟨c + 1, k⟩
  | true, true =>
    let d₀ := i.distance c k
    let d₁ := i.distance (c + 1) k
    if d₀ < d₁ then some ⟨c, k⟩
    else if d₁ < d₀ then some ⟨c + 1, k⟩
    else if c % 2 = 0 then some ⟨c, k⟩ else some ⟨c + 1, k⟩

/-- Tries one digit more at each step, `fuel` times at most. -/
def shortestFrom (i : Interval) (num den : Nat) (top : Int) : Nat → Nat → Decimal
  | n, 0 => ⟨num / den, top - (n : Int)⟩
  | n, fuel + 1 =>
    let k := top - (n : Int)
    let c := num * Nat.pow 10 (-k).toNat / (den * Nat.pow 10 k.toNat)
    match i.onGrid? c k with
    | some d => d
    | none => shortestFrom i num den top (n + 1) fuel

/-- The fewest digits that read back as the absolute value of a finite number
other than zero. Seventeen digits always suffice. -/
def shortest (x : Double) : Decimal :=
  let num := x.significand * Nat.pow 2 x.power.toNat
  let den := Nat.pow 2 (-x.power).toNat
  shortestFrom x.interval num den (floorLog10 num den) 0 18

end ProgramTree.Double
