/-
How a text may stand in YAML: without quotes, between single or between double
quotes.

Without quotes stands a text in ASCII on one line that cannot be taken for
anything else; between single quotes one that has line breaks or signs with a
meaning; all others stand between double quotes, where characters are escaped.
-/
import ProgramTree.Doc.Yaml.Implicit

namespace ProgramTree.Doc.Yaml

/-- The ways in which a text may stand. -/
inductive Style
  | plain | single | double
deriving DecidableEq, Repr

/-- The characters that break a line. -/
def isBreak (c : Char) : Bool :=
  c == '\n' || c.toNat == 0x85 || c.toNat == 0x2028 || c.toNat == 0x2029

/-- The characters that set words apart. -/
def isSeparator (c : Char) : Bool :=
  c == ' ' || c == '\t' || c == '\r' || c.toNat == 0 || isBreak c

/-- The characters that stand for themselves only between double quotes, if at
all. -/
def isSpecial (c : Char) : Bool :=
  !(c == '\n' || (' ' ≤ c && c ≤ '~'))

/-- Signs that have a meaning at the start of a text. -/
def isOpeningSign (c : Char) : Bool :=
  "#,[]&*!|>%@`".toList.contains c || c == '\x7b' || c == '\x7d' || c == '\x27' || c == '\x22'

/-- Whether a text starts with a sign that has a meaning there. -/
def opensWithSign : List Char → Bool
  | [] => false
  | c :: cs =>
    let alone := cs.head?.all isSeparator
    isOpeningSign c || ((c == '?' || c == ':' || c == '-') && alone)

/-- Whether, after its start, a text has a colon before a separator or a number
sign after one; `before` is the character before. -/
def holdsSign : Char → List Char → Bool
  | _, [] => false
  | before, c :: cs =>
    (c == ':' && cs.head?.all isSeparator) || (c == '#' && isSeparator before) || holdsSign c cs

/-- Whether two neighbours are of two classes, in this order. -/
def neighbours (p q : Char → Bool) : List Char → Bool
  | a :: b :: cs => (p a && q b) || neighbours p q (b :: cs)
  | _ => false

/-- A blank. -/
def isSpace (c : Char) : Bool :=
  c == ' '

/-- Whether a text may stand without quotes outside brackets. -/
def allowsPlain (cs : List Char) : Bool :=
  let edge := fun c => isSpace c || isBreak c
  !(cs.any isSpecial || cs.any isBreak || cs.head?.any edge || cs.getLast?.any edge
    || opensWithSign cs || (match cs with | [] => false | c :: rest => holdsSign c rest)
    || "---".toList.isPrefixOf cs || "...".toList.isPrefixOf cs)

/-- Whether a text may stand between single quotes. -/
def allowsSingle (cs : List Char) : Bool :=
  !(cs.any isSpecial || neighbours isBreak isSpace cs || neighbours isSpace isBreak cs)

/-- The style of a text. A key stays on one line. -/
def styleOf (isKey : Bool) (s : String) : Style :=
  let cs := s.toList
  let broken := cs.any isBreak
  if !meansOther s && !(isKey && (cs.isEmpty || broken)) && allowsPlain cs then .plain
  else if allowsSingle cs && !(isKey && broken) then .single
  else .double

end ProgramTree.Doc.Yaml
