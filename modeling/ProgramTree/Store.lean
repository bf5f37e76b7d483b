/-
The store: all cells made so far, and the counters that name new things.

Cells are only ever added at the end or replaced where they stand, so an address
handed out once stays good.
-/
import ProgramTree.Value

namespace ProgramTree

/-- The cells, and how many names of each sort have been handed out. -/
structure Store where
  cells : Array Cell
  /-- Temporary names of data types handed out. -/
  tempNames : Nat
  /-- References of literals handed out. -/
  refs : Nat
  /-- Node numbers handed out. -/
  numbers : Nat
  /-- Names given to values, the latest first. -/
  labels : List (String × Value)
deriving Repr

namespace Store

/-- The cell at an address. -/
def cell? (s : Store) (a : Address) : Option Cell :=
  s.cells[a]?

/-- The node at an address. -/
def node? (s : Store) (a : Address) : Option Node :=
  match s.cell? a with
  | some (.node n) => some n
  | _ => none

/-- The address that the next new cell gets. -/
def nextAddress (s : Store) : Address :=
  s.cells.size

/-- Adds a cell at the end. -/
def push (s : Store) (c : Cell) : Store :=
  { s with cells := s.cells.push c }

/-- Puts another cell at an address in use. -/
def replace (s : Store) (a : Address) (c : Cell) : Store :=
  { s with cells := s.cells.setIfInBounds a c }

/-- Changes the node at an address; other cells stay. -/
def updateNode (s : Store) (a : Address) (f : Node → Node) : Store :=
  match s.node? a with
  | some n => s.replace a (.node (f n))
  | none => s

/-- The new cell stands at the address that was next. -/
@[simp] theorem cell?_push_next (s : Store) (c : Cell) :
    (s.push c).cell? s.nextAddress = some c := by
  simp [push, cell?, nextAddress]

/-- A new cell leaves the cells before it. -/
theorem cell?_push_of_lt (s : Store) (c : Cell) (a : Address) (h : a < s.nextAddress) :
    (s.push c).cell? a = s.cell? a := by
  simp only [push, cell?, nextAddress] at *
  exact Array.getElem?_push_lt h |>.trans (Array.getElem?_eq_getElem h).symm

/-- Replacing a cell leaves all others. -/
theorem cell?_replace_of_ne (s : Store) (a b : Address) (c : Cell) (h : b ≠ a) :
    (s.replace a c).cell? b = s.cell? b := by
  simp [replace, cell?, h.symm]

/-- What stands at an address after replacing it. -/
theorem cell?_replace_self (s : Store) (a : Address) (c : Cell) (h : a < s.nextAddress) :
    (s.replace a c).cell? a = some c := by
  simp only [nextAddress] at h
  simp [replace, cell?, h]

/-- Replacing a cell hands out no address. -/
@[simp] theorem nextAddress_replace (s : Store) (a : Address) (c : Cell) :
    (s.replace a c).nextAddress = s.nextAddress := by
  simp [replace, nextAddress]

/-- Adding a cell hands out one address. -/
@[simp] theorem nextAddress_push (s : Store) (c : Cell) :
    (s.push c).nextAddress = s.nextAddress + 1 := by
  simp [push, nextAddress]

end Store

end ProgramTree
