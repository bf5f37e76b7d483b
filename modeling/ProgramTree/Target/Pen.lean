/-
A pen that writes source text piece by piece.

A piece need not be a text: names that were changed to something else are written
as they are, and only putting the pieces together finds out.
-/
import ProgramTree.Doc.Text
import ProgramTree.Text.Blank

namespace ProgramTree.Target

/-- What has been written, and how deep the next line is indented. -/
structure Pen where
  pieces : Array Doc
  indent : Nat

namespace Pen

/-- A pen that has written nothing. -/
def start : Pen :=
  ⟨#[], 0⟩

/-- Writes a piece. -/
def put (p : Pen) (d : Doc) : Pen :=
  { p with pieces := p.pieces.push d }

/-- Writes a text. -/
def write (p : Pen) (s : String) : Pen :=
  p.put (.text s)

/-- Ends the line, unless nothing has been written. -/
def newline (p : Pen) : Pen :=
  if p.pieces.isEmpty then p else p.write "\n"

/-- Starts a line with a text. -/
def fill (p : Pen) (s : String) : Pen :=
  p.newline.write (Text.repeated "    " p.indent ++ s)

/-- Writes several pieces. -/
def putAll (p : Pen) (ds : Array Doc) : Pen :=
  { p with pieces := p.pieces ++ ds }

/-- Indents lines by one more step. -/
def deeper (p : Pen) : Pen :=
  { p with indent := p.indent + 1 }

/-- Indents lines by one step less. -/
def shallower (p : Pen) : Pen :=
  { p with indent := p.indent - 1 }

/-- The texts of pieces, counted from `i`; the first piece that is no text is at
fault. -/
def texts : Nat → List Doc → Except Fault (List String)
  | _, [] => .ok []
  | i, .text s :: rest => do return s :: (← texts (i + 1) rest)
  | i, d :: _ => .error (.joinItem i d.typeName)

/-- All that has been written. -/
def joined (p : Pen) : Except Fault String := do
  return String.join (← texts 0 p.pieces.toList)

end Pen

/-- Writing: what it does to a pen. -/
abbrev Writing := Pen → Except Fault Pen

namespace Writing

/-- Writes something between two texts, if asked to. -/
def delimitIf (condition : Bool) (opening closing : String) (body : Writing) : Writing := fun p =>
  if condition then do
    let p ← body (p.write opening)
    return p.write closing
  else body p

/-- Writes something between two texts. -/
def delimit (opening closing : String) (body : Writing) : Writing :=
  delimitIf true opening closing body

/-- Writes an indented block behind a colon. -/
def block (body : Writing) : Writing := fun p => do
  let p ← body (p.write ":").deeper
  return p.shallower

/-- Starts a line with a keyword and a name. -/
def fillNamed (word : String) (name : Doc) : Writing := fun p =>
  match name with
  | .text s => .ok (p.fill (word ++ s))
  | d => .error (.notJoinable d.typeName)

/-- The points before the name of a relative module. -/
def points (level : Doc) : Except Fault String :=
  if !level.truthy then .ok ""
  else
    match level with
    | .int n => .ok (Text.repeated "." n.toNat)
    | .bool _ => .ok "."
    | d => .error (.notRepeatable d.typeName)

end Writing

end ProgramTree.Target
