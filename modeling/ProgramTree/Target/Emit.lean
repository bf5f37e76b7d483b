/-
Emitting source text for nodes.

The text of a term is touched up once: a returned sum, difference, product or
quotient of two names gets parentheses. Then its lines are moved to the right by a
margin. A node that cannot be written becomes a comment that says why, and the
comment has no margin.
-/
import ProgramTree.Target.Convert.Table
import ProgramTree.Target.Source
import ProgramTree.Text.Word

namespace ProgramTree.Target

/-! ## Returned operations -/

namespace Returned

/-- The letters that a name may start with. -/
def isWordStart (c : Char) : Bool :=
  c.isAlpha || c == '_'

/-- The signs that get parentheses. -/
def isSign (c : Char) : Bool :=
  ['+', '-', '*', '/'].contains c

/-- The name at the start, and the rest. -/
def word? : List Char → Option (List Char × List Char)
  | [] => none
  | c :: cs =>
    if isWordStart c then some (c :: cs.takeWhile Text.isWordChar, cs.dropWhile Text.isWordChar)
    else none

/-- The text after some characters at the start. -/
def after? : List Char → List Char → Option (List Char)
  | [], cs => some cs
  | _, [] => none
  | d :: ds, c :: cs => if c = d then after? ds cs else none

/-- A returned operation on two names at the start: the operation. -/
def operation? (cs : List Char) : Option (List Char) := do
  let (left, cs) ← word? (← after? "return ".toList cs)
  match cs with
  | ' ' :: sign :: ' ' :: cs =>
    if isSign sign then do
      let (right, _) ← word? cs
      return left ++ [' ', sign, ' '] ++ right
    else none
  | _ => none

/-- Puts parentheses around returned operations; `skip` characters belong to one that
was written already. -/
def parenthesized : Nat → List Char → List Char
  | _, [] => []
  | skip + 1, _ :: cs => parenthesized skip cs
  | 0, c :: cs =>
    match operation? (c :: cs) with
    | some op => "return (".toList ++ op ++ [')'] ++ parenthesized (6 + op.length) cs
    | none => c :: parenthesized 0 cs

end Returned

/-! ## Margins -/

/-- How far lines are moved to the right: so many times a unit. -/
structure Margin where
  level : Int
  unit : String
deriving DecidableEq, Repr

namespace Margin

/-- No margin, in units of four blanks. -/
def start : Margin :=
  ⟨0, "    "⟩

/-- A line behind the margin; a blank line stays as it is. -/
def line (m : Margin) (s : String) : String :=
  if Text.isAllBlank s then s else Text.repeated m.unit m.level.toNat ++ s

/-- A text behind the margin. -/
def indented (m : Margin) (s : String) : String :=
  if m.level ≤ 0 then s else String.intercalate "\n" ((Text.lines s).map m.line)

/-- A margin one unit wider. -/
def wider (m : Margin) : Margin :=
  { m with level := m.level + 1 }

end Margin

end ProgramTree.Target

namespace ProgramTree.Look

open Target

/-- The source text of a node behind a margin, or a comment that says why there is
none. -/
def source (margin : Margin) (v : Value) : Look String :=
  rescue (do
    let code ← ofOutcome (← term v).source
    return margin.indented (String.ofList (Returned.parenthesized 0 code.toList))) fun e => do
      return "# Error converting " ++ (← typeName v) ++ ": " ++ e.message.getD ""

end ProgramTree.Look
