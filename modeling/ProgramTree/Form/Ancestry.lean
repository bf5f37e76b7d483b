/-
Which forms a form refines, and the byte size that types inherit.
-/
import ProgramTree.Form

namespace ProgramTree.Form

/-- The first `steps` forms on the way from a form to its root. -/
def chain : Nat → Form → List Form
  | 0, _ => []
  | steps + 1, f => f :: (f.parent.map (chain steps)).getD []

/-- A form and all that it refines, the nearest first. No chain of forms is
longer than eleven. -/
def ancestors (f : Form) : List Form :=
  chain 12 f

/-- Whether a form is another one or refines it. -/
def isA (f g : Form) : Bool :=
  f.ancestors.contains g

/-- The last form of a chain refines nothing: eleven steps reach the root. -/
theorem parent_getLast_ancestors (f : Form) : (f.ancestors.getLast?.bind parent) = none := by
  cases f <;> rfl

/-- Every form is its own first ancestor. -/
theorem head_ancestors (f : Form) : f.ancestors.head? = some f := by
  cases f <;> rfl

/-- The size in bytes that a form declares itself. -/
def ownByteSize? : Form → Option Int
  | .expr | .exprType => some 0
  | .int8 | .uint8 => some 1
  | .int16 | .uint16 => some 2
  | .int32 | .uint32 => some 4
  | .int64 | .uint64 | .complex32 => some 8
  | .int128 | .uint128 | .complex64 => some 16
  | _ => none

/-- The size in bytes of a form: the nearest declared one; statements and
containers have none. -/
def byteSize? (f : Form) : Option Int :=
  f.ancestors.findSome? ownByteSize?

end ProgramTree.Form
