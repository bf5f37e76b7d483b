/-
Runs of steps on tables of names, with a report on the table after each step.
-/
import ProgramTree.Recipe
import ProgramTree.Scope
import ProgramTree.View

namespace ProgramTree.Scope

/-- A step on the current table. -/
inductive Action
  /-- Goes on with a new table. -/
  | create (family : Family)
  | define (value : Recipe)
  | update (value : Recipe)
  | lookup (name : String)
  /-- Adds a scope under a parent that has a handle, and gives the scope a handle. -/
  | add (name : String) (parent : Option String) (change : Bool) (handle : String)
  | first (handle : Option String)
  | last (handle : Option String)
  | current (handle : String)
  | destroy (handle : String)
  | setDefault (handle : String)

/-- All that a run works on. -/
structure Desk where
  world : World
  table : Table
  /-- Scopes by handle, the latest first; a handle may stand for no scope. -/
  handles : List (String × Option ScopeId)

namespace Desk

/-- A desk with a new table; before a table of the base family stands one of the plain
family, which is put away. -/
def renew (world : World) (handles : List (String × Option ScopeId)) (family : Family) : Desk :=
  let (table, world) := Table.create world .plain
  match family with
  | .plain => ⟨world, table, handles⟩
  | .base =>
    let (table, world) := Table.create world .base
    ⟨world, table, handles⟩

/-- The scope of a handle. -/
def scope (d : Desk) (handle : String) : Except Fault (Option ScopeId) :=
  match d.handles.lookup handle with
  | some id => .ok id
  | none => .error (.unknownLabel handle)

/-- Gives a scope a handle. -/
def hold (d : Desk) (handle : String) (id : Option ScopeId) : Desk :=
  { d with handles := (handle, id) :: d.handles }

/-- Gives a scope a handle, if there is one to give. -/
def holdIf (d : Desk) (handle : Option String) (id : ScopeId) : Desk :=
  match handle with
  | some h => d.hold h (some id)
  | none => d

/-- The name of a scope that may be missing. -/
def nameAnswer (d : Desk) (id : Option ScopeId) : Answer :=
  Answer.optionalText (id.bind d.world.nameOf?)

/-- The report on a desk. -/
def report (d : Desk) : Look Answer := do
  let current := d.table.current
  let names ← match current.bind d.world.get? with
    | some s => do
      let names ← s.bindings.mapM fun b => Look.answer b.1
      pure (Answer.list names)
    | none => pure Answer.null
  return .record
    [("current", d.nameAnswer current), ("previous", d.nameAnswer d.table.previous),
     ("parent", d.nameAnswer (current.bind d.world.parentOf?)),
     ("default_parent", d.nameAnswer (d.world.defaultOf d.table.family)),
     ("scopes", .list (d.table.live.map fun id => d.nameAnswer (some id))), ("names", names)]

end Desk

namespace Action

open Look

/-- Binds a value under its own name in the world, by some rule of the table. -/
def bindBy (d : Desk) (rule : Table → World → Value → Value → Except Fault World)
    (value : Recipe) : Build (Answer × Desk) := do
  let v ← value.build
  if d.table.current.isNone then Build.fail .noScope
  else
    let name ← Look.field v .name
    let _ ← Build.markOf name
    let world ← Look.ofOutcome (rule d.table d.world name v)
    return (.null, { d with world := world })

/-- Does a step. -/
def run (d : Desk) : Action → Build (Answer × Desk)
  | .create family => return (.null, Desk.renew d.world d.handles family)
  | .define value => bindBy d Table.define value
  | .update value => bindBy d Table.update value
  | .lookup name => do
    let v ← Look.ofOutcome (d.table.lookup d.world name)
    let shown ← Look.answer v
    let comment ← View.fieldAnswer v .comment
    return (.list [shown, comment], d)
  | .add name parent change handle => do
    let parent ← match parent with
      | some h => Look.ofOutcome (d.scope h)
      | none => pure none
    let (table, world, id) := d.table.add d.world name parent change
    let d := { d with table := table, world := world }.hold handle (some id)
    return (.list [d.nameAnswer (some id), d.nameAnswer (d.world.parentOf? id)], d)
  | .first handle => do
    let id ← Look.ofOutcome d.table.first
    return (d.nameAnswer (some id), d.holdIf handle id)
  | .last handle => do
    let id ← Look.ofOutcome d.table.last
    return (d.nameAnswer (some id), d.holdIf handle id)
  | .current handle => return (.null, d.hold handle d.table.current)
  | .destroy handle => do
    let id ← Look.ofOutcome (d.scope handle)
    let table ← Look.ofOutcome (d.table.destroy id)
    return (.null, { d with table := table })
  | .setDefault handle => do
    let id ← Look.ofOutcome (d.scope handle)
    return (.null, { d with world := d.world.setDefault d.table.family id })

/-- The report on a desk in a store. -/
def state (d : Desk) (s : Store) : Answer :=
  Answer.ofOutcome (d.report s).outcome

/-- Does steps one after the other; each is reported with the state after it. A step
that fails leaves the desk as it was. -/
def runAll : Desk → List Action → Store → List Answer
  | _, [], _ => []
  | d, action :: rest, s =>
    match action.run d s with
    | (.ok (result, d), s) =>
      .record [("result", result), ("state", state d s)] :: runAll d rest s
    | (.error e, s) => .record [("result", .fault e), ("state", state d s)] :: runAll d rest s

/-- Does steps on a new table: the state at the start, and a report on each step. -/
def session (family : Family) (actions : List Action) : List Answer :=
  let d := Desk.renew World.empty [] family
  .record [("state", state d Store.initial)] :: runAll d actions Store.initial

end Action

end ProgramTree.Scope
