/-
Documents on one line: brackets around lists, braces around dictionaries, and
texts in quotes.
-/
import ProgramTree.Doc
import ProgramTree.Double.Text

namespace ProgramTree.Doc

/-- The words for truth and falsehood. -/
def boolWord (b : Bool) : String :=
  if b then "True" else "False"

/-- Items between brackets. -/
def bracketed (opening closing : String) (items : List String) : String :=
  opening ++ String.intercalate ", " items ++ closing

/-- Items between round brackets; a single one has a comma after it. -/
def tupleText : List String → String
  | [item] => "(" ++ item ++ ",)"
  | items => bracketed "(" ")" items

/-- Items between braces; the empty set is called by its name. -/
def setText : List String → String
  | [] => "set()"
  | items => bracketed "\x7b" "\x7d" items

/-- What stands for a collection inside itself. -/
def loopText (type : String) : String :=
  if type = "list" then "[...]"
  else if type = "dict" then "\x7b...\x7d"
  else if type = "tuple" then "(...)"
  else type ++ "(...)"

mutual

/-- A document on one line. -/
def written : Doc → Except Fault String
  | .null => .ok "None"
  | .bool b => .ok (boolWord b)
  | .int n => .ok (toString n)
  | .float x => .ok x.text
  | .text s => .ok (Text.quoted s)
  | .list items => do return bracketed "[" "]" (← writtenAll items)
  | .tuple items => do return tupleText (← writtenAll items)
  | .set items => do return setText (← writtenAll items)
  | .dict entries => do return bracketed "\x7b" "\x7d" (← writtenEntries entries)
  | .held _ d => d.written
  | .loop _ type => .ok (loopText type)
  | .foreign thing => thing.written

/-- The documents of a list, each on one line. -/
def writtenAll : List Doc → Except Fault (List String)
  | [] => .ok []
  | d :: rest => do return (← d.written) :: (← writtenAll rest)

/-- The entries of a dictionary, each on one line. -/
def writtenEntries : List (Doc × Doc) → Except Fault (List String)
  | [] => .ok []
  | (k, d) :: rest => do
    return ((← k.written) ++ ": " ++ (← d.written)) :: (← writtenEntries rest)

end

/-- A document as a text of its own: a text as it is, a foreign thing by its own text, all
else on one line. -/
def plain : Doc → Except Fault String
  | .text s => .ok s
  | .foreign thing => thing.text
  | d => d.written

/-- Whether a document counts as true: absence, zero and what is empty do not. -/
def truthy : Doc → Bool
  | .null => false
  | .bool b => b
  | .int n => n != 0
  | .float x => !x.isZero
  | .text s => !s.isEmpty
  | .list items | .tuple items | .set items => !items.isEmpty
  | .dict entries => !entries.isEmpty
  | .held _ d => d.truthy
  | .loop .. => true
  | .foreign thing => thing.truthy

end ProgramTree.Doc
