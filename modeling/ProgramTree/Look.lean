/-
Looking at a store.

Labels, outlines and conversions only read the store, with one exception: a
container has a cursor, and walking over a container leaves the cursor where the
walk ended. A look therefore has an outcome and the cursor moves made on the way,
and these moves are all that it may do to the store. Moves made before a fault
count, also when the fault is caught.
-/
import ProgramTree.Fault
import ProgramTree.Store

namespace ProgramTree

/-- A container's cursor comes to rest at a position. -/
structure Move where
  container : Address
  position : Nat
deriving DecidableEq, Repr

/-- What a look gives. -/
structure Sight (α : Type) where
  outcome : Except Fault α
  moves : List Move

/-- A sight seen after other moves. -/
def Sight.after {α : Type} (moves : List Move) (x : Sight α) : Sight α :=
  ⟨x.outcome, moves ++ x.moves⟩

/-- A look at a store. -/
def Look (α : Type) : Type :=
  Store → Sight α

namespace Look

/-- The same answer whatever the store. -/
protected def pure {α : Type} (a : α) : Look α :=
  fun _ => ⟨.ok a, []⟩

/-- Looks again, with what the first look found. -/
protected def bind {α β : Type} (x : Look α) (f : α → Look β) : Look β :=
  fun s =>
    match x s with
    | ⟨.error e, moves⟩ => ⟨.error e, moves⟩
    | ⟨.ok a, moves⟩ => (f a s).after moves

instance : Monad Look where
  pure := Look.pure
  bind := Look.bind

/-- Fails. -/
def fail {α : Type} (e : Fault) : Look α :=
  fun _ => ⟨.error e, []⟩

/-- Looks elsewhere after a fault. -/
def rescue {α : Type} (x : Look α) (h : Fault → Look α) : Look α :=
  fun s =>
    match x s with
    | ⟨.ok a, moves⟩ => ⟨.ok a, moves⟩
    | ⟨.error e, moves⟩ => (h e s).after moves

instance : MonadExceptOf Fault Look where
  throw := fail
  tryCatch := rescue

/-- The whole store. -/
def store : Look Store :=
  fun s => ⟨.ok s, []⟩

/-- Notes a cursor move. -/
def move (m : Move) : Look Unit :=
  fun _ => ⟨.ok (), [m]⟩

/-- Fails unless there is something. -/
def ofOption {α : Type} (e : Fault) : Option α → Look α
  | some a => pure a
  | none => fail e

/-- An outcome without moves. -/
def ofOutcome {α : Type} (x : Except Fault α) : Look α :=
  fun _ => ⟨x, []⟩

private theorem bind_pure_self {α : Type} (x : Look α) : Look.bind x Look.pure = x := by
  funext s
  unfold Look.bind Look.pure
  rcases x s with ⟨_ | _, moves⟩ <;> simp [Sight.after]

private theorem pure_bind_apply {α β : Type} (a : α) (f : α → Look β) :
    Look.bind (Look.pure a) f = f a := by
  funext s
  simp [Look.bind, Look.pure, Sight.after]

private theorem bind_bind {α β γ : Type} (x : Look α) (f : α → Look β) (g : β → Look γ) :
    Look.bind (Look.bind x f) g = Look.bind x fun a => Look.bind (f a) g := by
  funext s
  unfold Look.bind
  rcases x s with ⟨_ | a, moves⟩
  · rfl
  · rcases h : f a s with ⟨_ | b, moves'⟩ <;> simp [Sight.after, h]

/-- Looks obey the laws of monads. -/
instance : LawfulMonad Look :=
  LawfulMonad.mk' Look (fun x => bind_pure_self x) (fun a f => pure_bind_apply a f)
    (fun x f g => bind_bind x f g)

end Look

namespace Store

/-- Brings a container's cursor to rest. -/
def applyMove (s : Store) (m : Move) : Store :=
  s.updateNode m.container fun n => n.set .position (.int m.position)

/-- Brings the cursors to rest, in the order of the moves. -/
def applyMoves (s : Store) (moves : List Move) : Store :=
  moves.foldl applyMove s

end Store

end ProgramTree
