/-
Quoted text.

A text is put between single quotes, or between double quotes when it has a
single quote and no double one. The quote in use and the backslash are written
after a backslash, tab, line feed and carriage return by their letter, and all
other characters that are not printed as themselves by their code point in two,
four or eight hexadecimal digits.
-/
import ProgramTree.Text.Printable

namespace ProgramTree.Text

/-- A number in lower-case hexadecimal digits, with zeros up to `width`. -/
def hex (width n : Nat) : List Char :=
  let ds := Nat.toDigits 16 n
  List.replicate (width - ds.length) '0' ++ ds

/-- A character by its code point, after a backslash. -/
def codeEscape (c : Char) : List Char :=
  let n := c.toNat
  if n < 0x100 then '\\' :: 'x' :: hex 2 n
  else if n < 0x10000 then '\\' :: 'u' :: hex 4 n
  else '\\' :: 'U' :: hex 8 n

/-- Tab, line feed and carriage return by their letter, any other character by
its code point. -/
def controlEscape (c : Char) : List Char :=
  if c == '\t' then ['\\', 't']
  else if c == '\n' then ['\\', 'n']
  else if c == '\r' then ['\\', 'r']
  else codeEscape c

/-- One character of a text between quotes. -/
def quotedChar (quote c : Char) : List Char :=
  if c == quote || c == '\\' then ['\\', c]
  else if isPrintable c then [c]
  else controlEscape c

/-- The quote that a text is put between. -/
def quoteFor (cs : List Char) : Char :=
  if cs.contains '\x27' && !cs.contains '\x22' then '\x22' else '\x27'

/-- The characters between the quotes. -/
def quotedBody (cs : List Char) : List Char :=
  cs.flatMap (quotedChar (quoteFor cs))

/-- A text between quotes. -/
def quoted (s : String) : String :=
  let q := quoteFor s.toList
  String.ofList (q :: quotedBody s.toList ++ [q])

end ProgramTree.Text
