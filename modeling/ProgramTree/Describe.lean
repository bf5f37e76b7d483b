/-
What can be said about a value, with the smaller values inside it described
already.

Labels, quoted texts, plain data and outlines go into each other: an outline has
labels in it, and a list in a label quotes its items. Each of them is therefore
written as one step that takes the descriptions of smaller values as a record;
the module `Describe.Knot` ties these steps together.
-/
import ProgramTree.Doc
import ProgramTree.Look.Items

namespace ProgramTree

/-- The four descriptions of a value. -/
structure Describe where
  /-- The text of a value; a node has a label. -/
  text : Value → Look String
  /-- The text of a value inside a collection. -/
  quoted : Value → Look String
  /-- A value as plain data. -/
  doc : Value → Look Doc
  /-- The outline of a node; a simplified one has no metadata. -/
  outline : Bool → Value → Look Doc

namespace Describe

/-- The descriptions of a structure that is too deep. -/
def tooDeep : Describe where
  text _ := Look.fail .tooDeep
  quoted _ := Look.fail .tooDeep
  doc _ := Look.fail .tooDeep
  outline _ _ := Look.fail .tooDeep

/-- The text of a field. -/
def fieldText (d : Describe) (v : Value) (f : Field) : Look String := do
  d.text (← Look.field v f)

/-- The texts of the items of a value, with a separator between them. -/
def joined (d : Describe) (separator : String) (v : Value) : Look String := do
  return String.intercalate separator (← Look.forEach v d.text)

/-- The outline of a field. -/
def fieldOutline (d : Describe) (simplified : Bool) (v : Value) (f : Field) : Look Doc := do
  d.outline simplified (← Look.field v f)

end Describe

namespace Look

/-- Texts of which none may be anything else, `i` texts already seen. -/
def textsFrom : Nat → List Value → Look (List String)
  | _, [] => pure []
  | i, .text s :: rest => do return s :: (← textsFrom (i + 1) rest)
  | i, v :: _ => do fail (.joinItem i (← typeName v))

/-- The items of a value, which must be texts, with a separator between them. -/
def joinedTexts (separator : String) (v : Value) : Look String := do
  return String.intercalate separator (← textsFrom 0 (← items v))

/-- A point for each level of a relative import. -/
def levelPoints : Value → Look String
  | .int n => pure (String.ofList (List.replicate n.toNat '.'))
  | .bool b => pure (if b then "." else "")
  | v => do fail (.notRepeatable (← typeName v))

end Look

end ProgramTree
