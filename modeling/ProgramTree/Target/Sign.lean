/-
Operator signs of the target language: their texts, the names that dumps give
them, and how tightly they bind.
-/

namespace ProgramTree.Target

/-! ## Levels -/

/-- How tightly an expression binds; larger is tighter. -/
abbrev Level := Nat

namespace Level

/-- Named expressions. -/
def named : Level := 1
/-- Tuples without parentheses. -/
def tuple : Level := 2
/-- Yields. -/
def yielding : Level := 3
/-- Conditional expressions and functions without a name; what stands on its own. -/
def test : Level := 4
/-- Disjunctions. -/
def disjunction : Level := 5
/-- Conjunctions. -/
def conjunction : Level := 6
/-- Negations. -/
def negation : Level := 7
/-- Comparisons. -/
def comparison : Level := 8
/-- Bitwise disjunctions; the loosest arithmetic. -/
def bitOr : Level := 9
/-- Bitwise exclusive disjunctions. -/
def bitXor : Level := 10
/-- Bitwise conjunctions. -/
def bitAnd : Level := 11
/-- Shifts. -/
def shift : Level := 12
/-- Sums. -/
def sum : Level := 13
/-- Products. -/
def product : Level := 14
/-- Signed numbers. -/
def factor : Level := 15
/-- Powers. -/
def power : Level := 16
/-- Awaited expressions. -/
def awaiting : Level := 17
/-- Names, calls and whatever has brackets. -/
def atom : Level := 18

/-- The next tighter level; nothing is tighter than an atom. -/
def next (l : Level) : Level :=
  if l < atom then l + 1 else l

end Level

/-! ## Signs -/

/-- Signs between two numbers. -/
inductive BinarySign
  | add | sub | mult | div | floorDiv | mod | pow | lShift | rShift | bitOr | bitAnd | bitXor
deriving DecidableEq, Repr

/-- Signs before an operand. -/
inductive UnarySign
  | minus | plus | invert | not
deriving DecidableEq, Repr

/-- Signs between truth values. -/
inductive LogicalSign
  | and | or
deriving DecidableEq, Repr

/-- Signs of comparisons. -/
inductive CompareSign
  | eq | notEq | lt | ltE | gt | gtE | isIn | notIn | is | isNot
deriving DecidableEq, Repr

namespace BinarySign

/-- All signs. -/
def all : List BinarySign :=
  [.add, .sub, .mult, .div, .floorDiv, .mod, .pow, .lShift, .rShift, .bitOr, .bitAnd, .bitXor]

/-- The sign as it is written. -/
def text : BinarySign → String
  | .add => "+"
  | .sub => "-"
  | .mult => "*"
  | .div => "/"
  | .floorDiv => "//"
  | .mod => "%"
  | .pow => "**"
  | .lShift => "<<"
  | .rShift => ">>"
  | .bitOr => "|"
  | .bitAnd => "&"
  | .bitXor => "^"

/-- The name of the sign in a dump. -/
def dumpName : BinarySign → String
  | .add => "Add"
  | .sub => "Sub"
  | .mult => "Mult"
  | .div => "Div"
  | .floorDiv => "FloorDiv"
  | .mod => "Mod"
  | .pow => "Pow"
  | .lShift => "LShift"
  | .rShift => "RShift"
  | .bitOr => "BitOr"
  | .bitAnd => "BitAnd"
  | .bitXor => "BitXor"

/-- How tightly the sign binds. -/
def level : BinarySign → Level
  | .add | .sub => Level.sum
  | .mult | .div | .floorDiv | .mod => Level.product
  | .pow => Level.power
  | .lShift | .rShift => Level.shift
  | .bitOr => Level.bitOr
  | .bitAnd => Level.bitAnd
  | .bitXor => Level.bitXor

/-- The level that the left operand needs: powers group to the right. -/
def leftLevel (s : BinarySign) : Level :=
  if s = .pow then s.level.next else s.level

/-- The level that the right operand needs. -/
def rightLevel (s : BinarySign) : Level :=
  if s = .pow then s.level else s.level.next

/-- The sign of a text. -/
def ofText? (s : String) : Option BinarySign :=
  all.find? fun sign => sign.text = s

/-- The sign of a text with an equals sign behind it. -/
def ofAugmented? (s : String) : Option BinarySign :=
  all.find? fun sign => sign.text ++ "=" = s

end BinarySign

namespace UnarySign

/-- All signs. -/
def all : List UnarySign :=
  [.minus, .plus, .invert, .not]

/-- The sign as it is written. -/
def text : UnarySign → String
  | .minus => "-"
  | .plus => "+"
  | .invert => "~"
  | .not => "not"

/-- The name of the sign in a dump. -/
def dumpName : UnarySign → String
  | .minus => "USub"
  | .plus => "UAdd"
  | .invert => "Invert"
  | .not => "Not"

/-- How tightly the sign binds. -/
def level : UnarySign → Level
  | .not => Level.negation
  | _ => Level.factor

/-- The sign of a text. -/
def ofText? (s : String) : Option UnarySign :=
  all.find? fun sign => sign.text = s

end UnarySign

namespace LogicalSign

/-- The sign as it is written. -/
def text : LogicalSign → String
  | .and => "and"
  | .or => "or"

/-- The name of the sign in a dump. -/
def dumpName : LogicalSign → String
  | .and => "And"
  | .or => "Or"

/-- How tightly the sign binds. -/
def level : LogicalSign → Level
  | .and => Level.conjunction
  | .or => Level.disjunction

end LogicalSign

namespace CompareSign

/-- All signs. -/
def all : List CompareSign :=
  [.eq, .notEq, .lt, .ltE, .gt, .gtE, .isIn, .notIn, .is, .isNot]

/-- The sign as it is written. -/
def text : CompareSign → String
  | .eq => "=="
  | .notEq => "!="
  | .lt => "<"
  | .ltE => "<="
  | .gt => ">"
  | .gtE => ">="
  | .isIn => "in"
  | .notIn => "not in"
  | .is => "is"
  | .isNot => "is not"

/-- The name of the sign in a dump. -/
def dumpName : CompareSign → String
  | .eq => "Eq"
  | .notEq => "NotEq"
  | .lt => "Lt"
  | .ltE => "LtE"
  | .gt => "Gt"
  | .gtE => "GtE"
  | .isIn => "In"
  | .notIn => "NotIn"
  | .is => "Is"
  | .isNot => "IsNot"

/-- The sign of a text. -/
def ofText? (s : String) : Option CompareSign :=
  all.find? fun sign => sign.text = s

end CompareSign

end ProgramTree.Target
