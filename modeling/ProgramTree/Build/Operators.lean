/-
Operators between values.

Between nodes that overload them, operators make new nodes: an arithmetic sign or
a comparison makes a binary operator, the logical signs make logical ones. A
comparison asks the right operand first if it refines the left one, or if the left
one overloads nothing; the comparison is then turned around.
-/
import ProgramTree.Build.Construct

namespace ProgramTree

/-- The comparisons. -/
inductive Comparison
  | equal | unequal | less | greater | atMost | atLeast
deriving DecidableEq, Repr

namespace Comparison

/-- The sign of a comparison. -/
def sign : Comparison → String
  | .equal => "=="
  | .unequal => "!="
  | .less => "<"
  | .greater => ">"
  | .atMost => "<="
  | .atLeast => ">="

/-- The comparison with its operands exchanged. -/
def turned : Comparison → Comparison
  | .less => .greater
  | .greater => .less
  | .atMost => .atLeast
  | .atLeast => .atMost
  | c => c

/-- Turning a comparison around twice changes nothing. -/
@[simp] theorem turned_turned (c : Comparison) : c.turned.turned = c := by
  cases c <;> rfl

end Comparison

/-- The binary operators on values. -/
inductive Overload
  /-- A sign, as messages name it, and the code of the node that it makes. -/
  | arithmetic (sign code : String)
  | comparison (c : Comparison)
  /-- A sign, and the form of the node that it makes. -/
  | logical (sign : String) (form : Form)
deriving DecidableEq, Repr

/-- The unary operators on values. -/
inductive UnaryOverload
  | negate | plus | invert
deriving DecidableEq, Repr

/-- The operator with a sign. -/
def Overload.ofSign? : String → Option Overload
  | "+" => some (.arithmetic "+" "+")
  | "//" => some (.arithmetic "//" "//")
  | "%" => some (.arithmetic "%" "%")
  | "*" => some (.arithmetic "*" "*")
  | "-" => some (.arithmetic "-" "-")
  | "/" => some (.arithmetic "/" "/")
  | "**" => some (.arithmetic "** or pow()" "^")
  | "==" => some (.comparison .equal)
  | "!=" => some (.comparison .unequal)
  | "<" => some (.comparison .less)
  | ">" => some (.comparison .greater)
  | "<=" => some (.comparison .atMost)
  | ">=" => some (.comparison .atLeast)
  | "&" => some (.logical "&" .andOp)
  | "|" => some (.logical "|" .orOp)
  | "^" => some (.logical "^" .xorOp)
  | _ => none

/-- The unary operator of a name. -/
def UnaryOverload.ofName? : String → Option UnaryOverload
  | "neg" => some .negate
  | "pos" => some .plus
  | "inv" => some .invert
  | _ => none

namespace Build

/-- A new binary operator. -/
def newBinary (code : String) (l r : Value) : Build Value := do
  return .ref (← construct .binaryOp [] [(.opCode, .text code), (.lhs, l), (.rhs, r)])

/-- No operator for these operands. -/
def noOperator {α : Type} (sign : String) (l r : Value) : Build α := do
  fail (.badOperands sign (← Look.typeName l) (← Look.typeName r))

/-- A comparison of two values. -/
def compare (c : Comparison) (l r : Value) : Build Value := do
  if ← asksRight l r then newBinary c.turned.sign r l
  else if ← overloads l then newBinary c.sign l r
  else
    match c with
    | .equal => return .bool (l.plainlyEqual r)
    | .unequal => return .bool !(l.plainlyEqual r)
    | _ => fail (.notOrdered c.sign (← Look.typeName l) (← Look.typeName r))

/-- A binary operator between two values. -/
def applyBinary (op : Overload) (l r : Value) : Build Value := do
  match op with
  | .comparison c => compare c l r
  | .arithmetic sign code =>
    if ← overloads l then newBinary code l r else noOperator sign l r
  | .logical sign form =>
    if ← overloads l then return .ref (← construct form [] [(.lhs, l), (.rhs, r)])
    else noOperator sign l r

/-- The sign of a unary operator, as messages give it. -/
def unarySign : UnaryOverload → String
  | .negate => "-"
  | .plus => "+"
  | .invert => "~"

/-- A unary operator on a value. -/
def applyUnary (op : UnaryOverload) (v : Value) : Build Value := do
  if !(← overloads v) then fail (.badOperand (unarySign op) (← Look.typeName v))
  else
    match op with
    | .invert => return .ref (← construct .notOp [] [(.operand, v)])
    | _ => return .ref (← construct .unaryOp [] [(.opCode, .text (unarySign op)), (.operand, v)])

/-- The call of a function definition. -/
def call (fn : Value) (args : List Value) : Build Value := do
  let tuple ← newTuple args
  if ← Look.isA fn .functionDef then
    return .ref (← construct .functionCall [] [(.fn, fn), (.args, tuple)])
  else fail (.notCallable (← Look.typeName fn))

end Build

end ProgramTree
