/-
Building: changing a store.

A build has an outcome and a new store, and the new store stands also when the
outcome is a fault: what was done before the fault stays done. Looking is part of
building.
-/
import ProgramTree.Describe.Knot

namespace ProgramTree

/-- A change of a store. -/
def Build (α : Type) : Type :=
  Store → Except Fault α × Store

namespace Build

/-- An answer, and the store as it is. -/
protected def pure {α : Type} (a : α) : Build α :=
  fun s => (.ok a, s)

/-- One change after another; a fault ends them. -/
protected def bind {α β : Type} (x : Build α) (f : α → Build β) : Build β :=
  fun s =>
    match x s with
    | (.ok a, s) => f a s
    | (.error e, s) => (.error e, s)

instance : Monad Build where
  pure := Build.pure
  bind := Build.bind

/-- Fails. -/
def fail {α : Type} (e : Fault) : Build α :=
  fun s => (.error e, s)

/-- Goes on after a fault, with the store as the fault left it. -/
def rescue {α : Type} (x : Build α) (h : Fault → Build α) : Build α :=
  fun s =>
    match x s with
    | (.ok a, s) => (.ok a, s)
    | (.error e, s) => h e s

instance : MonadExceptOf Fault Build where
  throw := fail
  tryCatch := rescue

private theorem bind_answer {α : Type} (x : Build α) : Build.bind x Build.pure = x := by
  funext s
  unfold Build.bind Build.pure
  rcases x s with ⟨_ | _, t⟩ <;> rfl

private theorem bind_again {α β γ : Type} (x : Build α) (f : α → Build β) (g : β → Build γ) :
    Build.bind (Build.bind x f) g = Build.bind x fun a => Build.bind (f a) g := by
  funext s
  unfold Build.bind
  rcases x s with ⟨_ | _, t⟩ <;> rfl

/-- Builds obey the laws of monads. -/
instance : LawfulMonad Build :=
  LawfulMonad.mk' Build (fun x => bind_answer x) (fun _ _ => rfl) (fun x f g => bind_again x f g)

/-- A look, with its cursor moves made. -/
def look {α : Type} (x : Look α) : Build α :=
  fun s =>
    match x s with
    | ⟨outcome, moves⟩ => (outcome, s.applyMoves moves)

instance : MonadLift Look Build where
  monadLift := look

/-- The store. -/
def store : Build Store :=
  fun s => (.ok s, s)

/-- Changes the store. -/
def modify (f : Store → Store) : Build Unit :=
  fun s => (.ok (), f s)

/-- A new cell. -/
def new (c : Cell) : Build Address :=
  fun s => (.ok s.nextAddress, s.push c)

/-- A new list. -/
def newList (items : List Value) : Build Value := do
  return .ref (← new (.list items))

/-- A new tuple. -/
def newTuple (items : List Value) : Build Value := do
  return .ref (← new (.tuple items))

/-- Gives a field of a node a value. -/
def setField (a : Address) (f : Field) (v : Value) : Build Unit :=
  modify fun s => s.updateNode a fun n => n.set f v

/-- Gives several fields their values. -/
def setFields (a : Address) (fields : List (Field × Value)) : Build Unit :=
  modify fun s => s.updateNode a fun n => fields.foldl (fun n e => n.set e.1 e.2) n

/-- The next temporary name of a data type. -/
def tempName : Build String :=
  fun s => (.ok ("temp_" ++ toString s.tempNames), { s with tempNames := s.tempNames + 1 })

/-- The next reference of a literal: a count in thirty-two digits. -/
def literalRef : Build String :=
  fun s => (.ok (String.ofList (Text.hex 32 (s.refs + 1))), { s with refs := s.refs + 1 })

/-- Gives a node the next number. -/
def giveNumber (a : Address) : Build Unit :=
  modify fun s =>
    { s.updateNode a fun n => { n with number := s.numbers + 1 } with numbers := s.numbers + 1 }

/-- Gives a value a name. -/
def bindLabel (label : String) (v : Value) : Build Unit :=
  modify fun s => { s with labels := (label, v) :: s.labels }

/-- The value of a name. -/
def labelled (label : String) : Build Value := do
  match (← store).labels.lookup label with
  | some v => return v
  | none => fail (.unknownLabel label)

/-- Gives a field of any value another value; computed fields refuse, and what is no
node has no fields to change. -/
def assign (v : Value) (f : Field) (w : Value) : Build Unit := do
  match v with
  | .ref a =>
    match ← Look.node? v with
    | some n =>
      if (n.form.computed? f).isSome then fail (.computedField n.form.name f.key)
      else setField a f w
    | none => Look.lacks v f.key
  | _ => Look.lacks v f.key

/-- Takes a field of a node away; only a field of its own can be taken away. -/
def remove (v : Value) (f : Field) : Build Unit := do
  match v with
  | .ref a =>
    match ← Look.node? v with
    | some n =>
      if (n.form.computed? f).isSome then fail (.computedFieldKept n.form.name f.key)
      else if (n.get? f).isSome then modify fun s => s.updateNode a fun n => n.erase f
      else Look.lacks v f.key
    | none => Look.lacks v f.key
  | _ => Look.lacks v f.key

/-- Adds an item to a list. -/
def appendItem (v item : Value) : Build Unit := do
  match v with
  | .ref a =>
    match ← Look.cell a with
    | .list items => modify fun s => s.replace a (.list (items ++ [item]))
    | _ => Look.lacks v "append"
  | _ => Look.lacks v "append"

/-- Adds a node to a container, or an item to a list. -/
def append (v item : Value) : Build Unit := do
  appendItem (← Look.holder v) item

end Build

end ProgramTree
