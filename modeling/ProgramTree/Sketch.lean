/-
Drawings of what recipes build, and what a notebook shows of it.

Each question is answered in a store of its own. A recipe for an outline gives plain
data; a recipe for a node gives the node's outline.
-/
import ProgramTree.Answer
import ProgramTree.Drawing.Tool
import ProgramTree.Recipe

namespace ProgramTree.Sketch

open Drawing

/-- The outcome of building in a new store. -/
def inNewStore {α : Type} (x : Build α) : Except Fault α :=
  (x Store.initial).1

/-- What a recipe builds, as plain data. -/
def data (r : Recipe) : Build Doc := do
  Look.doc (← r.build)

/-- The drawing of an outline. -/
def drawing (dialect : Dialect) (direction : String) (outline : Recipe) : Except Fault String :=
  inNewStore do Look.ofOutcome (draw dialect direction (← data outline))

/-- The identifier of a box. -/
def boxId (label ref : String) (content : Recipe) : Except Fault String :=
  inNewStore do Look.ofOutcome (stableId label ref (← data content))

/-! ## The tool -/

/-- Options by their names. -/
def optionsOf : List (String × Recipe) → Build (List (String × Doc))
  | [] => pure []
  | (name, r) :: rest => do
    let value ← data r
    return (name, value) :: (← optionsOf rest)

/-- What the tool makes of an outline under options; an option that the tool does not know
ends the work before any call. -/
def byTool (tool : Tool) (options : List (String × Recipe)) (outline : Recipe) :
    Except Fault (Except Fault String × List Call) :=
  inNewStore do
    let outline ← data outline
    match Options.setAll {} (← optionsOf options) with
    | .ok o => return tool.run o outline
    | .error e => return (.error e, [])

/-- What the tool makes of a node. -/
def nodeByTool (tool : Tool) (node : Recipe) :
    Except Fault (Except Fault String × List Call) :=
  inNewStore do
    let v ← node.build
    match ← Build.look (Look.attempt (Look.outline false v)) with
    | .ok outline => return tool.run {} outline
    | .error e => return (.error e, [])

/-! ## Notebooks -/

/-- The part of a program's settings that only a notebook has. -/
def notebookMark : String := "IPKernelApp"

/-- Whether settings are those of a notebook: the mark is an item or a key of them, or a
part of their text. -/
def isNotebook (settings : Value) : Look Bool := do
  let mark := Value.text notebookMark
  match settings with
  | .text s => return Text.contains s notebookMark
  | .ref a =>
    match ← Look.cell a with
    | .list xs | .tuple xs | .set xs => return xs.contains mark
    | .dict es => return (es.map Prod.fst).contains mark
    | .node _ => return false
  | _ => return false

/-- Whether the program runs in a notebook, and how it then shows a node. -/
def inNotebook (settings node : Recipe) : Except Fault (Bool × Except Fault String) :=
  inNewStore do
    let notebook ← isNotebook (← settings.build)
    let v ← node.build
    let display := { Look.plainDisplay with inNotebook := notebook }
    let shown ← Build.look (Look.attempt (Describe.deep display fun d => d.quoted v))
    return (notebook, shown)

end ProgramTree.Sketch
