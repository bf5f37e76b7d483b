/-
Copies.

A copy of a value is made of new cells for everything that can be reached from
it, with the same sharing; nodes keep their numbers. A tuple that holds nothing
that can change is not copied.
-/
import ProgramTree.Build

namespace ProgramTree

namespace Value

/-- A value with its address replaced. -/
def redirect (f : Address → Address) : Value → Value
  | .ref a => .ref (f a)
  | v => v

end Value

namespace Cell

/-- A cell with its addresses replaced. -/
def redirect (f : Address → Address) : Cell → Cell
  | .node n => .node { n with fields := n.fields.map fun e => (e.1, e.2.redirect f) }
  | .list xs => .list (xs.map (Value.redirect f))
  | .tuple xs => .tuple (xs.map (Value.redirect f))
  | .set xs => .set (xs.map (Value.redirect f))
  | .dict es => .dict (es.map fun e => (e.1.redirect f, e.2.redirect f))

end Cell

namespace Store

/-- Adds to the addresses `seen` all that can be reached from those `waiting`,
within `fuel` steps. -/
def reach (s : Store) : Nat → List Address → List Address → List Address
  | 0, _, seen => seen
  | _, [], seen => seen
  | fuel + 1, a :: waiting, seen =>
    if seen.contains a then reach s fuel waiting seen
    else
      let next := ((s.cell? a).map Cell.targets).getD []
      reach s fuel (next ++ waiting) (seen ++ [a])

/-- How many addresses the cells hold together, and one for each cell: enough
steps to reach everything. -/
def reachFuel (s : Store) : Nat :=
  s.cells.foldl (fun n c => n + c.targets.length + 1) 1

/-- All addresses that can be reached from one. -/
def reachable (s : Store) (a : Address) : List Address :=
  s.reach s.reachFuel [a] []

/-- Whether a value holds nothing that can change: it is no reference, or a tuple of
such values. -/
def isFixed (s : Store) : Nat → Value → Bool
  | 0, _ => false
  | fuel + 1, .ref a =>
    match s.cell? a with
    | some (.tuple xs) => xs.all (s.isFixed fuel)
    | _ => false
  | _, _ => true

/-- The addresses of the cells that a copy of the cell at an address copies. -/
def copied (s : Store) (a : Address) : List Address :=
  (s.reachable a).filter fun b => !s.isFixed (s.cells.size + 1) (.ref b)

/-- The address of the copy of a cell, when the cells at `olds` are copied in
order to the addresses from `first` on. -/
def copyAddress (first : Address) (olds : List Address) (a : Address) : Address :=
  if olds.contains a then first + olds.idxOf a else a

/-- Adds copies of the cells at some addresses, which point to each other as those
cells do. -/
def pushCopies (s : Store) (olds : List Address) : Store :=
  let first := s.nextAddress
  olds.foldl (fun t a =>
    t.push (((s.cell? a).getD (.list [])).redirect (copyAddress first olds))) s

end Store

namespace Build

/-- A copy of a value and of all that it reaches. -/
def copy (v : Value) : Build Value := do
  match v with
  | .ref a =>
    let s ← store
    let olds := s.copied a
    modify fun s => s.pushCopies olds
    return .ref (Store.copyAddress s.nextAddress olds a)
  | _ => return v

end Build

end ProgramTree
