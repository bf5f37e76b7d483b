/-
Constants in the source of the target language.

A text is quoted as everywhere. Only a text that documents a definition has its own
rule: it stands between three quotes over as many lines as it has, with few
escapes.
-/
import ProgramTree.Doc.Text
import ProgramTree.Text.Blank

namespace ProgramTree.Target.Literal

/-! ## Documenting texts -/

/-- A character of a documenting text: line feeds and tabs stand as they are. -/
def docChar (c : Char) : List Char :=
  if c == '\n' || c == '\t' then [c]
  else if c == '\\' then ['\\', '\\']
  else if Text.isPrintable c then [c]
  else Text.controlEscape c

/-- The two triple quotes, the preferred one first. -/
def tripleQuotes : List (List Char) :=
  [List.replicate 3 '\x22', List.replicate 3 '\x27']

/-- A text between triple quotes that do not occur in it; a last character that is
the quote itself gets a backslash, unless the other quote avoids it. -/
def between (body : List Char) (quotes : List (List Char)) : List Char :=
  let last := body.getLast?
  let clashes := fun q : List Char => q.head? == last
  let sorted := quotes.filter (fun q => !clashes q) ++ quotes.filter clashes
  match sorted, last with
  | q :: _, some c => if clashes q then q ++ body.dropLast ++ ['\\', c] ++ q else q ++ body ++ q
  | q :: _, none => q ++ body ++ q
  | [], _ => body

/-- A text quoted by the ordinary rule, but between the triple of its quote. -/
def widened (s : String) : List Char :=
  let q := Text.quoteFor s.toList
  let triple := List.replicate 3 q
  triple ++ Text.quotedBody s.toList ++ triple

/-- A documenting text. -/
def documentation (s : String) : String :=
  let body := s.toList.flatMap docChar
  match tripleQuotes.filter fun q => !Text.occursIn q body with
  | [] => String.ofList (widened s)
  | quotes => String.ofList (between body quotes)

/-! ## Constants -/

/-- Numbers are written so that they can be read back: an infinity as a decimal that
is too large, and what is no number as a difference of two of them. -/
def numbers : Double.Layout :=
  { Double.standard with infinity := "1e309", nan := "(1e309-1e309)" }

/-- A constant inside or outside a tuple. -/
def plain : Doc → Except Fault String
  | .float x => .ok (x.textWith numbers)
  | d => d.written

end ProgramTree.Target.Literal
