/-
Reading fields.

A node answers for a field with its own value or else with the one that its form
lends. All data types lend the number of temporary names handed out so far. Two
fields are computed: a function's name is that of its prototype, and a module's
block is its list of nodes.
-/
import ProgramTree.Look
import ProgramTree.Store.Shared

namespace ProgramTree

/-- The fields to follow in place of a computed field. -/
def Form.computed? (f : Form) (field : Field) : Option (List Field) :=
  if field = .name && f.isA .functionDef then some [.prototype, .name]
  else if field = .block && f.isA .moduleRoot then some [.nodes]
  else none

namespace Look

/-- The cell at an address. -/
def cell (a : Address) : Look Cell := do
  ofOption .dangling ((← store).cell? a)

/-- The node that a value holds. -/
def node? : Value → Look (Option Node)
  | .ref a => do return (← store).node? a
  | _ => pure none

/-- The name of the type of a value. -/
def typeName : Value → Look String
  | .none => pure "NoneType"
  | .bool _ => pure "bool"
  | .int _ => pure "int"
  | .float _ => pure "float"
  | .text _ => pure "str"
  | .member m => pure m.enumeration.name
  | .ref a => do return (← cell a).typeName

/-- Whether a value is a node of a form, or of one that refines it. -/
def isA (v : Value) (f : Form) : Look Bool := do
  return (← node? v).any fun n => n.form.isA f

/-- A value lacks a field. -/
def lacks {α : Type} (v : Value) (key : String) : Look α := do
  fail (.noField (← typeName v) key)

/-- A field that is not computed. -/
def plainField (v : Value) (f : Field) : Look Value := do
  match v with
  | .member m =>
    if f = .name then return .text m.name
    else if f = .value then return .int m.code
    else lacks v f.key
  | _ =>
    match ← node? v with
    | some n =>
      match n.get? f with
      | some w => return w
      | none =>
        match n.form.lent? f with
        | some w => return w
        | none =>
          if f = .tempCount && n.form.isA .dataType then return .int (← store).tempNames
          else lacks v f.key
    | none => lacks v f.key

/-- Follows plain fields one after the other. -/
def follow (v : Value) : List Field → Look Value
  | [] => pure v
  | f :: rest => do follow (← plainField v f) rest

/-- The fields that stand for a computed field of a value. -/
def computedPath? (v : Value) (f : Field) : Look (Option (List Field)) := do
  return (← node? v).bind fun n => n.form.computed? f

/-- A field of a value. -/
def field (v : Value) (f : Field) : Look Value := do
  match ← computedPath? v f with
  | some path => follow v path
  | none => plainField v f

/-- A field of a value, if it has it; other faults than a missing field stay. -/
def field? (v : Value) (f : Field) : Look (Option Value) :=
  rescue (do return some (← field v f)) fun e =>
    if e.category = .attribute then pure none else fail e

/-- Whether a value has a field. -/
def has (v : Value) (f : Field) : Look Bool := do
  return (← field? v f).isSome

/-- Whether a value has all of some fields. -/
def hasAll (v : Value) : List Field → Look Bool
  | [] => pure true
  | f :: rest => do if ← has v f then hasAll v rest else pure false

end Look

end ProgramTree
