/-
Drawings of outlines.

An outline is drawn as a graph: an entry that carries metadata is a box, and its
content holds the boxes below it. An entry without metadata is no box; its key
labels the arrows to the boxes inside it. The strokes of a drawing are found first
and written down afterwards, in one of two dialects: one declares boxes under
stable names, the other uses the labels themselves as names.
-/
import ProgramTree.Digest.Md5
import ProgramTree.Doc.Text
import ProgramTree.Text.Blank

namespace ProgramTree

/-- Which way a drawing runs. -/
inductive Direction
  | down | right
deriving DecidableEq, Repr

namespace Direction

/-- The word for a direction. -/
def word : Direction → String
  | .down => "TD"
  | .right => "LR"

/-- The direction of a word. -/
def ofWord (s : String) : Except Fault Direction :=
  if s = "TD" then .ok .down
  else if s = "LR" then .ok .right
  else .error .badDirection

end Direction

namespace Drawing

/-- The dialects in which a drawing is written. -/
inductive Dialect
  /-- Boxes have stable names and are declared with their labels. -/
  | declared
  /-- A box is named by its label and not declared. -/
  | bare
deriving DecidableEq, Repr

/-- A part of a drawing. -/
inductive Stroke
  /-- A box with a name and a label. -/
  | box (id label : String)
  /-- An arrow between two boxes; an empty label is none. -/
  | arrow (source label target : String)
deriving DecidableEq, Repr

/-- The stable name of a box: the first ten digits of a digest of all that it
shows. -/
def stableId (label ref : String) (content : Doc) : Except Fault String := do
  let digest := Digest.Md5.ofText
    (label ++ "|" ++ ref ++ "|" ++ content.typeName ++ "|" ++ (← content.written))
  return "N" ++ (digest.take 10).toString

/-- A label with its double quotes escaped. -/
def escaped (label : String) : String :=
  Text.replaceChar '\x22' "\\\"" label

/-- The reference in the metadata of a box. -/
def refOf (metadata : Doc) : Except Fault String :=
  match metadata.bare with
  | .dict es => ((Doc.lookup "ref" es).getD (.text "")).plain
  | d => .error (.noField d.typeName "get")

/-- The name of a box. -/
def boxId (dialect : Dialect) (title ref : String) (content : Doc) : Except Fault String :=
  match dialect with
  | .declared => stableId title ref content
  | .bare => .ok title

/-- The label of an arrow, empty for none. Only texts can be labels that are not
quoted. -/
def arrowLabel (dialect : Dialect) (edge : Doc) : Except Fault String :=
  if !edge.truthy then .ok ""
  else
    match dialect, edge with
    | _, .text s => .ok s
    | .declared, d => d.plain
    | .bare, d => .error (.noField d.typeName "replace")

/-- The strokes for one box: its declaration and the arrow to it. An empty parent is
none. -/
def boxStrokes (dialect : Dialect) (parent : String) (edge : Doc) (id title : String) :
    Except Fault (List Stroke) := do
  let declaration := if dialect = .declared then [Stroke.box id title] else []
  if parent.isEmpty then return declaration
  else return declaration ++ [.arrow parent (← arrowLabel dialect edge) id]

/-- The name by which a box is the parent of others; without quotes a key that
counts as false is none. -/
def parentName (dialect : Dialect) (key : Doc) (id : String) : String :=
  if dialect = .declared || key.truthy then id else ""

mutual

/-- The strokes of the entries of a dictionary under a parent, with a label for the
arrows. -/
def ofEntries (dialect : Dialect) (parent : String) (edge : Doc) :
    List (Doc × Doc) → Except Fault (List Stroke)
  | [] => .ok []
  | (key, value) :: rest => do
    let first ← ofEntry dialect parent edge key value
    return first ++ (← ofEntries dialect parent edge rest)

/-- The strokes of the value under a key. -/
def ofEntry (dialect : Dialect) (parent : String) (edge key : Doc) :
    Doc → Except Fault (List Stroke)
  | .dict fields => do
    let metadata := (Doc.lookup "metadata" fields).getD (.dict [])
    if metadata.truthy then
      let content := (Doc.lookup "content" fields).getD (.text "")
      let ref ← refOf metadata
      let title ← key.plain
      let id ← boxId dialect title ref content
      let box ← boxStrokes dialect parent edge id title
      return box ++ (← belowFirst dialect (parentName dialect key id) fields)
    else ofEntries dialect parent key fields
  | .held _ d => ofEntry dialect parent edge key d
  | _ => .ok []

/-- The strokes of the content among some fields. -/
def belowFirst (dialect : Dialect) (parent : String) :
    List (Doc × Doc) → Except Fault (List Stroke)
  | [] => .ok []
  | (.text "content", content) :: _ => below dialect parent content
  | _ :: rest => belowFirst dialect parent rest

/-- The strokes of a content: of a dictionary, or of the dictionaries in a list. -/
def below (dialect : Dialect) (parent : String) : Doc → Except Fault (List Stroke)
  | .dict entries => ofEntries dialect parent (.text "") entries
  | .list items => belowAll dialect parent items
  | .held _ d => below dialect parent d
  | _ => .ok []

/-- The strokes of the dictionaries in a list. -/
def belowAll (dialect : Dialect) (parent : String) : List Doc → Except Fault (List Stroke)
  | [] => .ok []
  | item :: rest => do
    let first ← ofItem dialect parent item
    return first ++ (← belowAll dialect parent rest)

/-- The strokes of an item of a list, if it is a dictionary. -/
def ofItem (dialect : Dialect) (parent : String) : Doc → Except Fault (List Stroke)
  | .dict entries => ofEntries dialect parent (.text "") entries
  | .held _ d => ofItem dialect parent d
  | _ => .ok []

end

/-- The strokes of an outline. -/
def strokes (dialect : Dialect) (outline : Doc) : Except Fault (List Stroke) :=
  ofItem dialect "" outline

/-- A stroke as a line. -/
def line (dialect : Dialect) : Stroke → String
  | .box id label => id ++ "[\"" ++ escaped label ++ "\"]"
  | .arrow source label target =>
    if label.isEmpty then source ++ " --> " ++ target
    else
      match dialect with
      | .declared => source ++ " -- \"" ++ escaped label ++ "\" --> " ++ target
      | .bare => source ++ " -->|" ++ Text.replaceChar '|' "/" label ++ "| " ++ target

/-- A drawing as text: a line that gives the direction, and a line for each
stroke. -/
def render (dialect : Dialect) (direction : Direction) (parts : List Stroke) : String :=
  String.intercalate "\n" (("graph " ++ direction.word) :: parts.map (line dialect)) ++ "\n"

/-- The drawing of an outline, the direction given by its word. -/
def draw (dialect : Dialect) (direction : String) (outline : Doc) : Except Fault String := do
  let direction ← Direction.ofWord direction
  return render dialect direction (← strokes dialect outline)

end Drawing

end ProgramTree
