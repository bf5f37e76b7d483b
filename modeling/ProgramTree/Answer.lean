/-
Answers: what is reported about values.

An answer holds no addresses: a node stands in it as the name of its form and its
text, and a fault can stand wherever an answer is expected.
-/
import ProgramTree.Build

namespace ProgramTree

/-- A report. -/
inductive Answer
  | null
  | bool (b : Bool)
  | int (n : Int)
  | float (x : Double)
  | text (s : String)
  | list (items : List Answer)
  | set (items : List Answer)
  | dict (entries : List (Answer × Answer))
  /-- A thing of a type, by its text. -/
  | thing (type : String) (text : Except Fault String)
  /-- Answers under fixed names. -/
  | record (fields : List (String × Answer))
  | fault (e : Fault)
deriving Inhabited

namespace Answer

/-- An answer that may have failed. -/
def ofOutcome (x : Except Fault Answer) : Answer :=
  match x with
  | .ok a => a
  | .error e => .fault e

/-- A list of texts. -/
def texts (items : List String) : Answer :=
  .list (items.map .text)

/-- A text, or null. -/
def optionalText : Option String → Answer
  | some s => .text s
  | none => .null

end Answer

namespace Look

/-- The outcome of a look, without ending on a fault. -/
def attempt {α : Type} (x : Look α) : Look (Except Fault α) :=
  rescue (do return .ok (← x)) fun e => return .error e

/-- The report on a value, looking into collections down to a depth. -/
def answerTo : Nat → Value → Look Answer
  | 0, _ => fail .tooDeep
  | depth + 1, v => do
    match v with
    | .none => return .null
    | .bool b => return .bool b
    | .int n => return .int n
    | .float x => return .float x
    | .text s => return .text s
    | .member m => return .text m.text
    | .ref a =>
      match ← cell a with
      | .node n => return .thing n.form.name (← attempt (text v))
      | .list xs | .tuple xs => return .list (← xs.mapM (answerTo depth))
      | .set xs => return .set (← xs.mapM (answerTo depth))
      | .dict es =>
        return .dict (← es.mapM fun e => do
          return (← answerTo depth e.1, ← answerTo depth e.2))

/-- The report on a value. -/
def answer (v : Value) : Look Answer := do
  answerTo ((← store).cells.size + 1) v

end Look

end ProgramTree
