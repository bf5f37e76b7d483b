/-
A scenario that fills tables of names and looks names up.
-/
import ProgramTree.Sample
import ProgramTree.Scope

namespace ProgramTree.Sample

open Build Scope

/-- After so many definitions a new scope is opened inside the current one. -/
def scopeStride : Nat := 10

/-- The name of a variable. -/
def variableName (i : Nat) : String :=
  "v" ++ toString i

/-- Defines a variable, in a new scope if it is time for one. -/
def defineNext (state : Table × World) (i : Nat) : Build (Table × World) := do
  let (table, world) := state
  let (table, world) :=
    if i % scopeStride = 0 then
      let (table, world, _) := table.add world ("scope" ++ toString i) table.current true
      (table, world)
    else (table, world)
  let v ← named (variableName i)
  let world ← Look.ofOutcome (table.define world (.text (variableName i)) v)
  return (table, ← Look.ofOutcome (table.update world (.text (variableName i)) v))

/-- Destroys all scopes of a table. -/
def emptied (table : Table) : List ScopeId → Table
  | [] => table
  | id :: rest =>
    match table.destroy (some id) with
    | .ok table => emptied table rest
    | .error _ => emptied table rest

/-- The category of a fault, where one is expected. -/
def faultIn {α : Type} : Except Fault α → Answer
  | .ok _ => .null
  | .error e => category e

/-- The name of a scope. -/
def scopeName (world : World) (id : Except Fault ScopeId) : Answer :=
  match id with
  | .ok id => Answer.optionalText (world.nameOf? id)
  | .error e => category e

/-- One table: the first half of its names, its oldest and its youngest scope, and four
things that fail. -/
def tableReport (world : World) (size : Nat) : Build (List Answer × World) := do
  let (table, world) := Table.create world .plain
  let (table, world) ← (List.range size).foldlM defineNext (table, world)
  let found ← (List.range (size / 2)).mapM fun i => do
    let v ← Look.ofOutcome (table.lookup world (variableName i))
    label (← Look.field v .name)
  let v ← named "missing"
  let bare := emptied table table.live
  let failures := [faultIn (table.lookup world "missing"),
    faultIn (table.update world (.text "missing") v),
    faultIn (bare.define world (.text "missing") v),
    faultIn (bare.update world (.text "missing") v)]
  return (found ++ [scopeName world table.first, scopeName world table.last] ++ failures, world)

/-- Three tables one after the other. -/
def names (size : Nat) : Build (List Answer) := do
  let (first, world) ← tableReport World.empty size
  let (second, world) ← tableReport world size
  let (third, _) ← tableReport world size
  return first ++ second ++ third

end ProgramTree.Sample
