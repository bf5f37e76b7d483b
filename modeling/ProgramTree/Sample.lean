/-
Sample nodes, and short reports on nodes.

Scenarios are put together from small nodes with fixed contents. They are built
without numbers, so that labels which show a number show zero.
-/
import ProgramTree.Answer
import ProgramTree.Build.Collections
import ProgramTree.Build.Operators
import ProgramTree.Target.Emit

namespace ProgramTree.Sample

open Build

/-! ## Nodes -/

/-- A node of a form. -/
def node (form : Form) (given : List (Field × Value)) : Build Value := do
  return .ref (← construct form [] given)

/-- A literal of a form. -/
def literal (form : Form) (value : Value) : Build Value :=
  node form [(.value, value)]

/-- An integer of thirty-two bits. -/
def number (n : Int) : Build Value :=
  literal .literalInt32 (.int n)

/-- A variable. -/
def named (name : String) : Build Value :=
  node .variableUse [(.name, .text name)]

/-- An identifier. -/
def identifier (name : String) : Build Value :=
  node .identifier [(.name, .text name)]

/-- A node that holds a value. -/
def holding (form : Form) (value : Build Value) : Build Value := do
  node form [(.value, ← value)]

/-- A list of new nodes. -/
def listOf (items : List (Build Value)) : Build Value := do
  newList (← items.mapM id)

/-- A block of new nodes. -/
def block (items : List (Build Value)) : Build Value := do
  let b ← node .block []
  items.forM fun item => do append b (← item)
  return b

/-- An assignment to a variable. -/
def assignment (name : String) (value : Build Value) : Build Value := do
  node .variableAssignment [(.name, .text name), (.value, ← value)]

/-- A declaration of a variable of thirty-two bits. -/
def declaration (form : Form) (name : String) : Build Value := do
  node form [(.name, .text name), (.type, ← node .int32 [])]

/-- A declaration with an initial value. -/
def initialized (form : Form) (name : String) (value : Int) : Build Value := do
  let type ← node .int32 []
  node form [(.name, .text name), (.type, type), (.value, ← number value)]

/-- The sum, or another combination, of two new nodes. -/
def combined (code : String) (left right : Build Value) : Build Value := do
  let l ← left
  newBinary code l (← right)

/-- The comparison of two numbers. -/
def less (left right : Int) : Build Value :=
  combined "<" (number left) (number right)

/-- The arguments of a function, by their names. -/
def arguments (names : List String) : Build Value := do
  let items ← names.mapM fun name => do
    node .argument [(.name, .text name), (.type, ← node .int32 [])]
  return .ref (← construct .arguments items [])

/-- The prototype of a function. -/
def prototype (name : String) (args : List String) : Build Value := do
  let args ← arguments args
  let type ← node .int32 []
  node .functionPrototype [(.name, .text name), (.args, args), (.returnType, type)]

/-- A function. -/
def function (form : Form) (name : String) (args : List String) (body : List (Build Value)) :
    Build Value := do
  let proto ← prototype name args
  node form [(.prototype, proto), (.body, ← block body)]

/-- A loop over a range of numbers. -/
def rangeLoop (form : Form) (body : List (Build Value)) : Build Value := do
  let i ← declaration .inlineVariableDeclaration "i"
  let start ← number 0
  let finish ← number 10
  let step ← number 1
  node form [(.loopVariable, i), (.start, start), (.finish, finish), (.step, step),
    (.body, ← block body)]

/-- A node with a condition and a body. -/
def conditional (form : Form) (condition : Build Value) (body : List (Build Value)) :
    Build Value := do
  let c ← condition
  node form [(.condition, c), (.body, ← block body)]

/-! ## Reports -/

/-- The label of a node. -/
def label (v : Value) : Build Answer := do
  return .text (← Look.text v)

/-- The outline of a node as entries. -/
def entries (simplified : Bool) (v : Value) : Build (List (String × Doc)) := do
  Look.ofOutcome (← Look.outline simplified v).entries

/-- How many entries the outline of a node has. -/
def entryCount (simplified : Bool) (v : Value) : Build Answer := do
  return .int (← entries simplified v).length

/-- The first key of the outline of a node. -/
def firstKey (simplified : Bool) (v : Value) : Build Answer := do
  return Answer.optionalText ((← entries simplified v).head?.map Prod.fst)

/-- The label of a node and how many entries its outline has. -/
def brief (v : Value) : Build (List Answer) := do
  return [← label v, ← entryCount false v]

/-- The same with the simplified outline. -/
def full (v : Value) : Build (List Answer) := do
  return [← label v, ← entryCount false v, ← entryCount true v]

/-- Builds nodes one after the other and reports on each. -/
def reports (report : Value → Build (List Answer)) (items : List (Build Value)) :
    Build (List Answer) := do
  return (← items.mapM fun item => do report (← item)).flatten

/-- The reports for all numbers below a bound. -/
def each (size : Nat) (report : Nat → Build (List Answer)) : Build (List Answer) := do
  return (← (List.range size).mapM report).flatten

/-- What becomes of a fault in something that is expected to fail. -/
def failing {α : Type} (shown : Fault → Answer) (x : Build α) : Build Answer :=
  rescue (do let _ ← x; return .null) fun e => return shown e

/-- The category of a fault. -/
def category (e : Fault) : Answer :=
  .text e.category.word

/-- The start of a fault's message. -/
def beginning (count : Nat) (e : Fault) : Answer :=
  .text (String.ofList ((e.message.getD "").toList.take count))

end ProgramTree.Sample
