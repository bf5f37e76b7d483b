/-
Documents in JSON, over several lines and in ASCII alone.

Each level is indented by two more blanks; an empty list or dictionary stays on
its line. Characters outside the printable ASCII range are written by their
UTF-16 units.
-/
import ProgramTree.Doc
import ProgramTree.Double.Text
import ProgramTree.Text.Blank
import ProgramTree.Text.Quoted

namespace ProgramTree.Doc.Json

/-- A UTF-16 unit after a backslash. -/
def unitEscape (n : Nat) : List Char :=
  '\\' :: 'u' :: Text.hex 4 n

/-- A character outside the basic plane as two UTF-16 units. -/
def pairEscape (n : Nat) : List Char :=
  unitEscape (0xD800 + (n - 0x10000) / 0x400) ++ unitEscape (0xDC00 + (n - 0x10000) % 0x400)

/-- One character between the quotes. -/
def escapedChar (c : Char) : List Char :=
  let n := c.toNat
  if c == '\x22' then ['\\', '\x22']
  else if c == '\\' then ['\\', '\\']
  else if 0x20 ≤ n && n ≤ 0x7E then [c]
  else if c == '\n' then ['\\', 'n']
  else if c == '\r' then ['\\', 'r']
  else if c == '\t' then ['\\', 't']
  else if n == 0x0C then ['\\', 'f']
  else if n == 0x08 then ['\\', 'b']
  else if n < 0x10000 then unitEscape n
  else pairEscape n

/-- A text between quotes. -/
def quoted (s : String) : String :=
  String.ofList ('\x22' :: s.toList.flatMap escapedChar ++ ['\x22'])

/-- Numbers are written as elsewhere, what has no digits by its name. -/
def numbers : Double.Layout :=
  { Double.standard with infinity := "Infinity", nan := "NaN" }

/-- The end of a line and the indentation of the next one. -/
def lineEnd (level : Nat) : String :=
  "\n" ++ Text.repeated "  " level

/-- Items over several lines between brackets. -/
def spread (opening closing : String) (level : Nat) (items : List String) : String :=
  if items.isEmpty then opening ++ closing
  else
    opening ++ lineEnd (level + 1) ++ String.intercalate ("," ++ lineEnd (level + 1)) items
      ++ lineEnd level ++ closing

/-- A key: numbers, truth values and nothing become texts. -/
def keyText (d : Doc) : Except Fault String :=
  match d.bare with
  | .text s => .ok s
  | .float x => .ok (x.textWith numbers)
  | .bool b => .ok (if b then "true" else "false")
  | .null => .ok "null"
  | .int n => .ok (toString n)
  | other => .error (.badKey other.typeName)

mutual

/-- A document in JSON at a level of indentation. -/
def render (level : Nat) : Doc → Except Fault String
  | .null => .ok "null"
  | .bool b => .ok (if b then "true" else "false")
  | .int n => .ok (toString n)
  | .float x => .ok (x.textWith numbers)
  | .text s => .ok (quoted s)
  | .list items => do return spread "[" "]" level (← renderAll (level + 1) items)
  | .tuple items => do return spread "[" "]" level (← renderAll (level + 1) items)
  | .dict entries => do
    return spread "\x7b" "\x7d" level (← renderEntries (level + 1) entries)
  | .held _ d => render level d
  | .loop .. => .error .circular
  | .set _ => .error (.notSerializable "set")
  | .foreign thing => .error (.notSerializable thing.type)

/-- The documents of a list in JSON. -/
def renderAll (level : Nat) : List Doc → Except Fault (List String)
  | [] => .ok []
  | d :: rest => do return (← render level d) :: (← renderAll level rest)

/-- The entries of a dictionary in JSON. -/
def renderEntries (level : Nat) : List (Doc × Doc) → Except Fault (List String)
  | [] => .ok []
  | (k, d) :: rest => do
    let key ← keyText k
    return (quoted key ++ ": " ++ (← render level d)) :: (← renderEntries level rest)

end

end ProgramTree.Doc.Json

namespace ProgramTree.Doc

/-- A document in JSON. -/
def json (d : Doc) : Except Fault String :=
  Json.render 0 d

end ProgramTree.Doc
