/-
Collections: their length, whether they count as true, their items by position
and in turn.

A node that holds nodes is walked over with a cursor. A walk that ends leaves
the cursor at the start; one that is broken off at an item leaves it after that
item.
-/
import ProgramTree.Double.Text
import ProgramTree.Look.Fields

namespace ProgramTree.Look

/-! ## What is no container -/

/-- The items of a value that is no container. -/
def plainItems (v : Value) : Look (List Value) := do
  match v with
  | .text s => return s.toList.map fun c => .text c.toString
  | .ref a =>
    match ← cell a with
    | .list xs | .tuple xs | .set xs => return xs
    | .dict es => return es.map Prod.fst
    | .node n => fail (.notIterable n.form.name)
  | _ => fail (.notIterable (← typeName v))

/-- The length of a value that is no container. -/
def plainLength (v : Value) : Look Nat :=
  rescue (do return (← plainItems v).length) fun _ => do fail (.notSized (← typeName v))

/-- The whole number that an index into a sequence is. -/
def indexOf (owner : String) : Value → Look Int
  | .int n => pure n
  | .bool b => pure (if b then 1 else 0)
  | v => do fail (.badIndex owner (← typeName v))

/-- The item at an index; a negative one counts from the end. -/
def pick {α : Type} (owner : String) (xs : List α) (index : Value) : Look α := do
  let i ← indexOf owner index
  let j := if i < 0 then i + xs.length else i
  if j < 0 then fail (.indexRange owner) else ofOption (.indexRange owner) xs[j.toNat]?

/-- A key that a dictionary lacks. -/
def missingKey {α : Type} : Value → Look α
  | .none => fail (.missingKey "None")
  | .int n => fail (.missingKey (toString n))
  | .bool b => fail (.missingKey (if b then "True" else "False"))
  | .float x => fail (.missingKey x.text)
  | .text s => fail (.missingKey (Text.quoted s))
  | .member m => fail (.missingKey m.quoted)
  | v => do fail (.unhashable (← typeName v))

/-- The item of a value that is no container, at an index or under a number. -/
def plainItem (v index : Value) : Look Value := do
  match v with
  | .text s => return .text (← pick "string" s.toList index).toString
  | .ref a =>
    match ← cell a with
    | .list xs => pick "list" xs index
    | .tuple xs => pick "tuple" xs index
    | .dict es =>
      match es.find? fun e => e.1.plainlyEqual index with
      | some e => return e.2
      | none => missingKey index
    | c => fail (.notIndexable c.typeName)
  | w => fail (.notIndexable (← typeName w))

/-! ## Containers -/

/-- What holds the items of a value: of a container its list of nodes, which may be a
container again. -/
def holderTo : Nat → Value → Look Value
  | 0, _ => fail .tooDeep
  | depth + 1, v => do
    if ← isA v .nodeList then holderTo depth (← plainField v .nodes) else return v

/-- What holds the items of a value. -/
def holder (v : Value) : Look Value := do
  holderTo ((← store).cells.size + 1) v

/-- The length of a value. -/
def length (v : Value) : Look Nat := do
  plainLength (← holder v)

/-- The item of a value at an index. -/
def itemAt (v index : Value) : Look Value := do
  plainItem (← holder v) index

/-- The item of a value at a whole number. -/
def item (v : Value) (i : Int) : Look Value :=
  itemAt v (.int i)

/-- Whether a value counts as true: absence, zero and what is empty do not. -/
def truthy (v : Value) : Look Bool := do
  match v with
  | .none => return false
  | .bool b => return b
  | .int n => return n != 0
  | .float x => return !x.isZero
  | .text s => return !s.isEmpty
  | .member _ => return true
  | .ref _ =>
    match ← node? v with
    | some n => if n.form.isA .nodeList then return (← length v) != 0 else return true
    | none => return (← length v) != 0

/-- Whether a field is there and counts as true; then its value. -/
def truthyField? (v : Value) (f : Field) : Look (Option Value) := do
  match ← field? v f with
  | some w => if ← truthy w then return some w else return none
  | none => return none

/-- Leaves the cursor of a container at a position. -/
def leave (v : Value) (position : Nat) : Look Unit := do
  match v with
  | .ref a => if ← isA v .nodeList then move ⟨a, position⟩ else return ()
  | _ => return ()

/-- Whether the items of a value are found by their index. -/
def isSequence (v : Value) : Look Bool := do
  match v with
  | .text _ => return true
  | .ref a =>
    match ← cell a with
    | .list _ | .tuple _ => return true
    | _ => return false
  | _ => return false

/-- The items that a walk over a value meets, each to be fetched when the walk comes
to it: a container fetches its nodes one by one by their index. -/
def slots (v : Value) : Look (List (Look Value)) := do
  if ← isA v .nodeList then
    let count ← rescue (length v) fun e => do leave v 0; fail e
    let nodes ← holder v
    if ← isSequence nodes then return (← plainItems nodes).map pure
    else return (List.range count).map fun (i : Nat) => plainItem nodes (.int i)
  else return (← plainItems v).map pure

/-- Does `body` on each item in turn, `i` items already done. -/
def walkFrom {β : Type} (v : Value) (body : Value → Look β) :
    Nat → List (Look Value) → Look (List β)
  | _, [] => do leave v 0; return []
  | i, x :: rest => do
    let y ← rescue (do body (← x)) fun e => do leave v (i + 1); fail e
    return y :: (← walkFrom v body (i + 1) rest)

/-- Does `body` on each item of a value in turn. -/
def forEach {β : Type} (v : Value) (body : Value → Look β) : Look (List β) := do
  walkFrom v body 0 (← slots v)

/-- The items of a value, by a walk over it. -/
def items (v : Value) : Look (List Value) :=
  forEach v pure

end ProgramTree.Look
