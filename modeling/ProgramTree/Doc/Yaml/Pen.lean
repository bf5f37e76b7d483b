/-
A pen that writes YAML and knows where it is on the line.
-/
import ProgramTree.Doc.Yaml.Scalar
import ProgramTree.Text.Blank
import ProgramTree.Text.Quoted

namespace ProgramTree.Doc.Yaml

/-- What is written, the column, whether a blank was written last, and whether
only indentation and its signs stand on the line. -/
structure Pen where
  page : String
  column : Nat
  blank : Bool
  indenting : Bool
deriving Repr

namespace Pen

/-- A pen at the start of a page. -/
def start : Pen :=
  { page := "", column := 0, blank := true, indenting := true }

/-- Lines should not pass this column. -/
def width : Nat := 80

/-- Writes on the line. -/
def write (p : Pen) (s : String) : Pen :=
  { p with page := p.page ++ s, column := p.column + s.length }

/-- Ends the line. -/
def newline (p : Pen) : Pen :=
  { page := p.page ++ "\n", column := 0, blank := true, indenting := true }

/-- Goes to a column, on a new line unless the pen is still before it. -/
def indent (p : Pen) (n : Nat) : Pen :=
  let p := if !p.indenting || n < p.column || (p.column == n && !p.blank) then p.newline else p
  if p.column < n then { p.write (Text.repeated " " (n - p.column)) with blank := true } else p

/-- Writes a sign, after a blank if one is needed. -/
def sign (p : Pen) (s : String) (needsBlank leavesBlank staysIndenting : Bool) : Pen :=
  let p' := p.write (if p.blank || !needsBlank then s else " " ++ s)
  { p' with blank := leavesBlank, indenting := p.indenting && staysIndenting }

/-- Makes the pen stand behind a word. -/
def behindWord (p : Pen) : Pen :=
  { p with blank := false, indenting := false }

end Pen

/-- Cuts a text into runs of blanks, of line breaks and of other characters. -/
def runs : List Char → List (List Char)
  | [] => []
  | c :: cs =>
    match runs cs with
    | (d :: ds) :: rest =>
      if isSpace c == isSpace d && isBreak c == isBreak d then (c :: d :: ds) :: rest
      else [c] :: (d :: ds) :: rest
    | rest => [c] :: rest

/-- Writes the runs of a text without quotes; a line that is too long ends at a
single blank. -/
def plainRuns (fold : Bool) (column : Nat) : List (List Char) → Pen → Pen
  | [], p => p
  | run :: rest, p =>
    let p :=
      if run == [' '] && Pen.width < p.column && fold then (p.indent column).behindWord
      else p.write (String.ofList run)
    plainRuns fold column rest p

/-- Writes a text without quotes. -/
def plain (fold : Bool) (column : Nat) (s : String) (p : Pen) : Pen :=
  if s.isEmpty then p
  else plainRuns fold column (runs s.toList) (if p.blank then p else p.write " ").behindWord

/-- Writes line breaks inside single quotes: one more than there are. -/
def singleBreaks (column : Nat) (run : List Char) (p : Pen) : Pen :=
  (run.foldl (fun p _ => p.newline) p.newline).indent column

/-- Writes the runs between single quotes; `first` tells whether the run is the
first one. -/
def singleRuns (fold : Bool) (column : Nat) : Bool → List (List Char) → Pen → Pen
  | _, [], p => p
  | first, run :: rest, p =>
    let p :=
      if run.any isBreak then singleBreaks column run p
      else if run == [' '] && Pen.width < p.column && fold && !first && !rest.isEmpty then
        p.indent column
      else p.write (Text.replaceChar '\x27' "''" (String.ofList run))
    singleRuns fold column false rest p

/-- Writes a text between single quotes. -/
def single (fold : Bool) (column : Nat) (s : String) (p : Pen) : Pen :=
  (singleRuns fold column true (runs s.toList) (p.sign "'" true false false)).sign "'" false false
    false

/-- The letter of a character that is escaped by one. -/
def escapeLetter? (c : Char) : Option Char :=
  [(0x00, '0'), (0x07, 'a'), (0x08, 'b'), (0x09, 't'), (0x0A, 'n'), (0x0B, 'v'), (0x0C, 'f'),
   (0x0D, 'r'), (0x1B, 'e'), (0x22, '\x22'), (0x5C, '\\'), (0x85, 'N'), (0xA0, '_'),
   (0x2028, 'L'), (0x2029, 'P')].lookup c.toNat

/-- Upper-case hexadecimal digits. -/
def upperHex (width n : Nat) : List Char :=
  (Text.hex width n).map Char.toUpper

/-- A character between double quotes, if it does not stand for itself. -/
def escape? (c : Char) : Option String :=
  match escapeLetter? c with
  | some l => some (String.ofList ['\\', l])
  | none =>
    let n := c.toNat
    if ' ' ≤ c && c ≤ '~' then none
    else if n ≤ 0xFF then some (String.ofList ('\\' :: 'x' :: upperHex 2 n))
    else if n ≤ 0xFFFF then some (String.ofList ('\\' :: 'u' :: upperHex 4 n))
    else some (String.ofList ('\\' :: 'U' :: upperHex 8 n))

/-- Ends a line inside double quotes; a blank at the start of the next one is
escaped. -/
def doubleFold (column : Nat) (waiting : List Char) (next : Option Char) (p : Pen) : Pen :=
  let p := ((p.write (String.ofList (waiting.reverse ++ ['\\']))).indent column).behindWord
  if next == some ' ' then p.write "\\" else p

/-- Writes the characters between double quotes. `waiting` holds characters not
yet written, the last first; `first` tells whether the character is the first
one. A line that is too long ends at a blank or at an escape. -/
def doubleChars (fold : Bool) (column : Nat) : Bool → List Char → List Char → Pen → Pen
  | _, waiting, [], p => p.write (String.ofList waiting.reverse)
  | first, waiting, c :: cs, p =>
    match escape? c with
    | some e =>
      let p := (p.write (String.ofList waiting.reverse)).write e
      let p :=
        if !first && !cs.isEmpty && Pen.width + 1 < p.column && fold then
          doubleFold column [] cs.head? p
        else p
      doubleChars fold column false [] cs p
    | none =>
      if !first && !cs.isEmpty && (c == ' ' || waiting.isEmpty)
          && Pen.width < p.column + waiting.length && fold then
        doubleChars fold column false [c] cs (doubleFold column waiting (some c) p)
      else doubleChars fold column false (c :: waiting) cs p

/-- Writes a text between double quotes. -/
def double (fold : Bool) (column : Nat) (s : String) (p : Pen) : Pen :=
  (doubleChars fold column true [] s.toList (p.sign "\x22" true false false)).sign "\x22" false
    false false

/-- Writes a text in its style. -/
def scalar (isKey : Bool) (column : Nat) (s : String) (p : Pen) : Pen :=
  match styleOf isKey s with
  | .plain => plain (!isKey) column s p
  | .single => single (!isKey) column s p
  | .double => double (!isKey) column s p

end ProgramTree.Doc.Yaml
