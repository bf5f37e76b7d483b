/-
All descriptions of all values.

A description of a value asks for descriptions of the values inside it, each time
with one unit of fuel less. A store has no longer chain of values than it has
cells, unless a value contains itself; so one unit for each cell is enough, and a
node that contains itself is too deep. A collection that contains itself is cut
short where it is met again.
-/
import ProgramTree.Describe.Outline
import ProgramTree.Digest.Sha256

namespace ProgramTree

/-- How a node is shown inside a collection. -/
structure Display where
  /-- In a notebook a node is shown as nothing. -/
  inNotebook : Bool
  /-- Draws an outline. -/
  draw : Doc → Except Fault String

namespace Describe

open Look

/-- The text of a value by one step. -/
def textStep (d : Describe) (v : Value) : Look String := do
  match v with
  | .none => return "None"
  | .bool b => return Doc.boolWord b
  | .int n => return toString n
  | .float x => return x.text
  | .text s => return s
  | .member m => return m.text
  | .ref a =>
    match ← cell a with
    | .node n => Label.ofNode d n v
    | .list xs => return Doc.bracketed "[" "]" (← xs.mapM d.quoted)
    | .tuple xs => return Doc.tupleText (← xs.mapM d.quoted)
    | .set xs => return Doc.setText (← xs.mapM d.quoted)
    | .dict es =>
      let entries ← es.mapM fun e => do return (← d.quoted e.1) ++ ": " ++ (← d.quoted e.2)
      return Doc.bracketed "\x7b" "\x7d" entries

/-- The outline of a value by one step; only nodes have one. -/
def outlineStep (d : Describe) (simplified : Bool) (v : Value) : Look Doc := do
  match ← node? v with
  | some n => Outline.ofNode d simplified n v
  | none => lacks v "get_struct"

/-- The drawing of a node by one step. -/
def drawStep (display : Display) (d : Describe) (v : Value) : Look String := do
  if display.inNotebook then return ""
  else ofOutcome (display.draw (← outlineStep d false v))

/-- The text of a value inside a collection by one step. -/
def quotedStep (display : Display) (d : Describe) (v : Value) : Look String := do
  match v with
  | .text s => return Text.quoted s
  | .member m => return m.quoted
  | .ref _ =>
    match ← node? v with
    | some n =>
      if n.form = .place then textStep d v
      else if n.form = .withItem then return "<" ++ n.form.path ++ " object>"
      else drawStep display d v
    | none => textStep d v
  | _ => textStep d v

/-- The outcome of a look that leaves no trace. -/
def peek {α : Type} (x : Look α) : Look (Except Fault α) :=
  fun s => ⟨.ok (x s).outcome, []⟩

/-- A value that is no plain data. -/
def foreign (display : Display) (d : Describe) (v : Value) : Look Doc := do
  let type ← typeName v
  let isTrue ← rescue (truthy v) fun _ => return true
  let text ← peek (textStep d v)
  let written ← rescue (do return .ok (← quotedStep display d v)) fun e => return .error e
  return .foreign ⟨v, type, isTrue, text, written⟩

/-- A value as plain data by one step. -/
def docStep (display : Display) (d : Describe) (v : Value) : Look Doc := do
  match v with
  | .none => return .null
  | .bool b => return .bool b
  | .int n => return .int n
  | .float x => return .float x
  | .text s => return .text s
  | .member _ => foreign display d v
  | .ref a =>
    match ← cell a with
    | .node _ => foreign display d v
    | .list xs => return .held a (.list (← xs.mapM d.doc))
    | .tuple xs => return .held a (.tuple (← xs.mapM d.doc))
    | .set xs => return .held a (.set (← xs.mapM d.doc))
    | .dict es =>
      let entries ← es.mapM fun e => do return (← d.doc e.1, ← d.doc e.2)
      return .held a (.dict entries)

/-- Goes into a value, with the collections that are open around it: a collection
that is open already is met again inside itself. -/
def enter {α : Type} (opened : List Address) (v : Value) (again : Address → String → α)
    (body : List Address → Look α) : Look α := do
  match v with
  | .ref a =>
    match ← cell a with
    | .node _ => body opened
    | c => if opened.contains a then return again a c.typeName else body (a :: opened)
  | _ => body opened

/-- All four descriptions by one step, inside the collections that are open. -/
def step (display : Display) (d : List Address → Describe) (opened : List Address) :
    Describe where
  text v := enter opened v (fun _ type => Doc.loopText type) fun o => textStep (d o) v
  quoted v := enter opened v (fun _ type => Doc.loopText type) fun o => quotedStep display (d o) v
  doc v := enter opened v Doc.loop fun o => docStep display (d o) v
  outline simplified v := outlineStep (d opened) simplified v

/-- All descriptions, down to a depth, inside the collections that are open. -/
def toDepth (display : Display) : Nat → List Address → Describe
  | 0, _ => tooDeep
  | depth + 1, opened => step display (toDepth display depth) opened

/-- One level more is one step more. -/
theorem toDepth_succ (display : Display) (depth : Nat) :
    toDepth display (depth + 1) = step display (toDepth display depth) := by
  rfl

/-- Does something with descriptions that are as deep as the store needs. -/
def deep {α : Type} (display : Display) (body : Describe → Look α) : Look α := do
  body (toDepth display ((← store).cells.size + 1) [])

end Describe

namespace Look

/-- The display of a program that runs outside a notebook and finds no drawing
tool. -/
def plainDisplay : Display :=
  { inNotebook := false, draw := fun _ => .error .toolMissing }

/-- The text of a value. -/
def text (v : Value) : Look String :=
  Describe.deep plainDisplay fun d => d.text v

/-- The text of a value inside a collection. -/
def quoted (v : Value) : Look String :=
  Describe.deep plainDisplay fun d => d.quoted v

/-- A value as plain data. -/
def doc (v : Value) : Look Doc :=
  Describe.deep plainDisplay fun d => d.doc v

/-- The outline of a node. -/
def outline (simplified : Bool) (v : Value) : Look Doc :=
  Describe.deep plainDisplay fun d => d.outline simplified v

/-- The digest of a node's outline, by which nodes are told apart. -/
def digest (v : Value) : Look String := do
  return Digest.Sha256.ofText (← ofOutcome (← outline false v).written)

end Look

end ProgramTree
