/-
The cursor of a container.

A container is its own iterator: starting an iteration puts its cursor back to the
start, and each step hands out the node at the cursor. Two loops over one
container share the cursor, so an inner loop leaves the outer one at the start.
-/
import ProgramTree.Build

namespace ProgramTree.Build

/-- Starts an iteration over a value; whether the value is its own iterator. -/
def startIteration (v : Value) : Build Bool := do
  match v with
  | .ref a =>
    if ← Look.isA v .nodeList then
      setField a .position (.int 0)
      return true
    else
      let _ ← Look.plainItems v
      return false
  | _ =>
    let _ ← Look.plainItems v
    return false

/-- Whether a cursor has come to the end of so many nodes. -/
def atEnd (position : Value) (count : Nat) : Look Bool := do
  match position with
  | .int p => return p ≥ count
  | .bool b => return (if b then 1 else 0) ≥ count
  | .float x => return !x.isNaN && !(x.below (Double.ofInt count))
  | _ => Look.fail (.notOrdered ">=" (← Look.typeName position) "int")

/-- A cursor moved on by one. -/
def movedOn : Value → Value
  | .int p => .int (p + 1)
  | .bool b => .int (if b then 2 else 1)
  | .float x => .float (x.addInt 1)
  | v => v

/-- The next node of a container, if there is one; at the end the cursor goes back
to the start. -/
def advance? (v : Value) : Build (Option Value) := do
  match v with
  | .ref a =>
    if ← Look.isA v .nodeList then
      let position ← Look.field v .position
      if ← atEnd position (← Look.length v) then
        setField a .position (.int 0)
        return none
      else
        setField a .position (movedOn position)
        return some (← Look.itemAt v position)
    else fail (.notIterator (← Look.typeName v))
  | _ => fail (.notIterator (← Look.typeName v))

/-- The next node of a container, or the fault that the iteration has ended. -/
def next (v : Value) : Build Value := do
  match ← advance? v with
  | some w => return w
  | none => fail .exhausted

/-- The texts of at most `count` more nodes of a container; the loop is left when one
more arrives. -/
def takeNodes (v : Value) : Nat → Build (List String)
  | 0 => do
    let _ ← advance? v
    return []
  | count + 1 => do
    match ← advance? v with
    | none => return []
    | some x =>
      let text ← Look.text x
      return text :: (← takeNodes v count)

/-- The texts of at most `count` items of a value. -/
def take (v : Value) (count : Nat) : Build (List String) := do
  if ← startIteration v then takeNodes v count
  else ((← Look.plainItems v).take count).mapM fun x => Look.text x

/-- The inner loop of two nested loops over a container: does `body` with the outer node and
each node in turn, as often as is still wanted. -/
def innerLoop {β : Type} (v : Value) (body : Value → Value → Build β) (outer : Value) :
    Nat → List β → Build (List β)
  | 0, made => return made
  | wanted + 1, made => do
    match ← advance? v with
    | none => return made
    | some inner => do
      let y ← body outer inner
      innerLoop v body outer wanted (made ++ [y])

/-- The outer loop of two nested loops over a container; every round does something, so there
are not more rounds than are wanted. -/
def outerLoop {β : Type} (v : Value) (body : Value → Value → Build β) (wanted : Nat) :
    Nat → List β → Build (List β)
  | 0, made => return made
  | rounds + 1, made => do
    match ← advance? v with
    | none => return made
    | some outer =>
      let _ ← startIteration v
      let made ← innerLoop v body outer (wanted - made.length) made
      if wanted ≤ made.length then return made else outerLoop v body wanted rounds made

/-- What two nested loops over a value do with the pairs that they meet, at most `wanted`
times. -/
def nested {β : Type} (v : Value) (body : Value → Value → Build β) (wanted : Nat) :
    Build (List β) := do
  if ← startIteration v then outerLoop v body wanted (wanted + 1) []
  else
    let items ← Look.plainItems v
    let pairs := (items.flatMap fun x => items.map fun y => (x, y)).take wanted
    pairs.mapM fun p => body p.1 p.2

/-- A pair of texts. -/
abbrev TextPair := String × String

/-- The pairs of texts that two nested loops over a value meet, at most `wanted`. -/
def nestedPairs (v : Value) (wanted : Nat) : Build (List TextPair) :=
  nested v (fun x y => do return (← Look.text x, ← Look.text y)) wanted

end ProgramTree.Build
