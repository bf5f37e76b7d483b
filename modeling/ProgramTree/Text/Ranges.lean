/-
Sets of numbers given by the lengths of runs that are outside and inside in turn.

The lengths are written as letters. A length is a number in base twenty-six of which
the last digit is a small letter and all others are capitals.
-/

namespace ProgramTree.Text

/-- The lengths in a text, if `n` is what was read of the first one. -/
def lengthsFrom (n : Nat) : List Char → List Nat
  | [] => []
  | c :: rest =>
    if c.isLower then (26 * n + (c.toNat - 'a'.toNat)) :: lengthsFrom 0 rest
    else lengthsFrom (26 * n + (c.toNat - 'A'.toNat)) rest

/-- The lengths in some lines of text. -/
def lengths (lines : List String) : List Nat :=
  lines.flatMap fun line => lengthsFrom 0 line.toList

/-- Whether a number lies inside, counted from the start of a run that does or does not;
after the last run all is outside. -/
def inRuns (n : Nat) (inside : Bool) : List Nat → Bool
  | [] => false
  | length :: rest => if n < length then inside else inRuns (n - length) (!inside) rest

end ProgramTree.Text
