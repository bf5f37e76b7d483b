/-
Scopes and tables of names.

All scopes ever made stand in one world, in the order of their making; a table
holds the scopes that it made and did not destroy, and knows which one is current.
A scope that is made without a parent takes the default parent of the base family,
whatever its own family is. A scope's parent is always older than the scope, so
looking from scope to parent comes to an end.
-/
import ProgramTree.Fault
import ProgramTree.Value

namespace ProgramTree

/-- Which scope, counted in the order of making. -/
abbrev ScopeId := Nat

/-- A scope: its name, the scope around it, and what its names stand for. -/
structure Scope where
  name : String
  parent : Option ScopeId
  bindings : List (Value × Value)
deriving Repr

namespace Scope

/-- The families of scopes. -/
inductive Family
  | plain | base
deriving DecidableEq, Repr

/-- Puts a binding among others: a name that is there keeps its place. -/
def put (name value : Value) : List (Value × Value) → List (Value × Value)
  | [] => [(name, value)]
  | (n, v) :: rest => if n = name then (n, value) :: rest else (n, v) :: put name value rest

/-- All scopes, and the default parents of the two families. -/
structure World where
  scopes : List Scope
  plainDefault : Option ScopeId
  baseDefault : Option ScopeId
deriving Repr

/-- A table: its scopes in the order of making, the current one, and the one that was
current before. -/
structure Table where
  family : Family
  live : List ScopeId
  current : Option ScopeId
  previous : Option ScopeId
deriving Repr

namespace World

/-- A world without scopes. -/
def empty : World :=
  ⟨[], none, none⟩

/-- A scope by its number. -/
def get? (w : World) (id : ScopeId) : Option Scope :=
  w.scopes[id]?

/-- The name of a scope. -/
def nameOf? (w : World) (id : ScopeId) : Option String :=
  (w.get? id).map Scope.name

/-- The parent of a scope. -/
def parentOf? (w : World) (id : ScopeId) : Option ScopeId :=
  (w.get? id).bind Scope.parent

/-- The default parent that a family shows: its own, or else that of the base family. -/
def defaultOf (w : World) : Family → Option ScopeId
  | .base => w.baseDefault
  | .plain => w.plainDefault <|> w.baseDefault

/-- Gives a family a default parent. -/
def setDefault (w : World) (family : Family) (id : Option ScopeId) : World :=
  match family with
  | .base => { w with baseDefault := id }
  | .plain => { w with plainDefault := id }

/-- Makes a scope. -/
def make (w : World) (name : String) (parent : Option ScopeId) : World × ScopeId :=
  ({ w with scopes := w.scopes ++ [⟨name, parent <|> w.baseDefault, []⟩] }, w.scopes.length)

/-- Binds a name in a scope. -/
def bind (w : World) (id : ScopeId) (name value : Value) : World :=
  { w with scopes := w.scopes.modify id fun s => { s with bindings := put name value s.bindings } }

/-- The value of a name in a scope or in those around it, within so many steps. -/
def findFrom (w : World) (name : Value) : Nat → Option ScopeId → Option Value
  | 0, _ => none
  | _, none => none
  | steps + 1, some id =>
    match w.get? id with
    | none => none
    | some s =>
      match s.bindings.lookup name with
      | some v => some v
      | none => findFrom w name steps s.parent

/-- The value of a name in a scope or in those around it: there are no more of these
than there are scopes. -/
def find? (w : World) (name : Value) (start : Option ScopeId) : Option Value :=
  w.findFrom name (w.scopes.length + 1) start

end World

namespace Table

/-- Adds a scope. It becomes the current one if asked to, or if it is alone. -/
def add (t : Table) (w : World) (name : String) (parent : Option ScopeId) (change : Bool) :
    Table × World × ScopeId :=
  let (w, id) := w.make name parent
  let live := t.live ++ [id]
  if live.length = 1 || change then
    ({ t with live := live, previous := t.current, current := some id }, w, id)
  else ({ t with live := live }, w, id)

/-- A new table: it has a root, which becomes the default parent of its family. -/
def create (w : World) (family : Family) : Table × World :=
  let (t, w, _) := add ⟨family, [], none, none⟩ w "root" none true
  (t, w.setDefault family t.current)

/-- The oldest scope of a table. -/
def first (t : Table) : Except Fault ScopeId :=
  match t.live with
  | id :: _ => .ok id
  | [] => .error .exhausted

/-- The youngest scope of a table. -/
def last (t : Table) : Except Fault ScopeId :=
  match t.live.getLast? with
  | some id => .ok id
  | none => .error (.indexRange "list")

/-- Destroys a scope of a table; the one that was current before becomes current,
whichever scope was destroyed. -/
def destroy (t : Table) (id : Option ScopeId) : Except Fault Table :=
  match id with
  | some id =>
    if t.live.contains id then
      .ok { t with live := t.live.erase id, current := t.previous, previous := none }
    else .error .foreignScope
  | none => .error .foreignScope

/-- Binds a name in the current scope. -/
def define (t : Table) (w : World) (name value : Value) : Except Fault World :=
  match t.current with
  | some id => .ok (w.bind id name value)
  | none => .error .noScope

/-- Binds a name anew that the current scope has. -/
def update (t : Table) (w : World) (name value : Value) : Except Fault World :=
  match t.current with
  | none => .error .noScope
  | some id =>
    if ((w.get? id).bind fun s => s.bindings.lookup name).isSome then .ok (w.bind id name value)
    else .error .undeclared

/-- The value of a name in the current scope or in those around it. -/
def lookup (t : Table) (w : World) (name : String) : Except Fault Value :=
  match w.find? (.text name) t.current with
  | some v => .ok v
  | none => .error (.undefinedName name)

end Table

end Scope

end ProgramTree
