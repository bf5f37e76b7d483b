/-
Sessions: steps on one store, one after the other.

A step that fails is reported as a fault and leaves what it did before the fault;
the session goes on with the next step.
-/
import ProgramTree.Cursor
import ProgramTree.Recipe
import ProgramTree.View

namespace ProgramTree

/-- A step of a session. -/
inductive Step
  /-- Builds a value and gives it a name. -/
  | bind (label : String) (value : Recipe)
  | ask (on : Recipe) (views : List View)
  | append (on value : Recipe)
  | length (on : Recipe)
  | truth (on : Recipe)
  | position (on : Recipe)
  /-- Starts an iteration; whether the value is its own iterator. -/
  | iterate (on : Recipe)
  | next (on : Recipe)
  | item (on : Recipe) (index : Int)
  | items (on : Recipe)
  /-- A loop that is left when `count` items have been taken. -/
  | take (on : Recipe) (count : Nat)
  /-- Two nested loops. -/
  | pairs (on : Recipe)
  | field (on : Recipe) (key : String)
  | assign (on : Recipe) (key : String) (value : Recipe)
  | remove (on : Recipe) (key : String)
  | same (on value : Recipe)
  /-- Sets the margin of source texts. -/
  | indent (margin : Target.Margin)
  | source (on : Recipe)
  /-- The source text one unit further to the right. -/
  | block (on : Recipe)

namespace Step

open Build

/-- How many pairs nested loops make at most. -/
def pairLimit : Nat := 8

/-- The report on a margin. -/
def marginAnswer (margin : Target.Margin) : Answer :=
  .list [.int margin.level, .text margin.unit]

/-- Whether a recipe writes out a number or a text. -/
def isWrittenOut : Recipe → Bool
  | .int _ | .float _ | .text _ => true
  | _ => false

/-- Whether there is only one thing that is this value: so it is for small numbers and
for texts of at most one character, but other numbers and texts are new things each
time they are written out. -/
def isUnique : Value → Bool
  | .int n => -5 ≤ n && n ≤ 256
  | .float _ => false
  | .text s => s.isEmpty || (s.length = 1 && s.toList.all fun c => c.toNat < 256)
  | _ => true

/-- Whether a value is the tuple of nothing, of which there is only one. -/
def isEmptyTuple : Value → Look Bool
  | .ref a => do
    match ← Look.cell a with
    | .tuple [] => return true
    | _ => return false
  | _ => pure false

/-- Whether two recipes build one thing. -/
def areSame (on value : Recipe) : Build Bool := do
  let v ← on.build
  let w ← value.build
  if v = w then return isUnique v || !(isWrittenOut on || isWrittenOut value)
  else if ← isEmptyTuple v then isEmptyTuple w
  else return false

/-- Runs a step under a margin. -/
def run (margin : Target.Margin) : Step → Build Answer
  | .bind label value => do
    let v ← value.build
    bindLabel label v
    Look.answer v
  | .ask on views => do
    let v ← on.build
    return .list (← views.mapM fun view => Build.look (view.ask v))
  | .append on value => do
    let v ← on.build
    Build.append v (← value.build)
    return .null
  | .length on => do return .int (← Look.length (← on.build))
  | .truth on => do return .bool (← Look.truthy (← on.build))
  | .position on => do View.fieldAnswer (← on.build) .position
  | .iterate on => do return .bool (← startIteration (← on.build))
  | .next on => do Look.answer (← Build.next (← on.build))
  | .item on index => do Look.answer (← Look.item (← on.build) index)
  | .items on => do return .list (← Look.forEach (← on.build) Look.answer)
  | .take on count => do return Answer.texts (← Build.take (← on.build) count)
  | .pairs on => do
    let pairs ← nestedPairs (← on.build) pairLimit
    return .list (pairs.map fun p => Answer.texts [p.1, p.2])
  | .field on key => do View.fieldAnswer (← on.build) (Field.ofKey key)
  | .assign on key value => do
    let v ← on.build
    Build.assign v (Field.ofKey key) (← value.build)
    return .null
  | .remove on key => do
    Build.remove (← on.build) (Field.ofKey key)
    return .null
  | .same on value => do return .bool (← areSame on value)
  | .indent margin => return marginAnswer margin
  | .source on => do return .text (← Look.source margin (← on.build))
  | .block on => do
    let text ← Look.source margin.wider (← on.build)
    return .list [.text text, .int margin.level]

/-- The margin after a step. -/
def marginAfter (margin : Target.Margin) : Step → Target.Margin
  | .indent m => m
  | _ => margin

/-- Runs steps on a store and reports on each. -/
def runAll : Target.Margin → List Step → Store → List Answer
  | _, [], _ => []
  | margin, step :: rest, s =>
    match step.run margin s with
    | (outcome, s) => Answer.ofOutcome outcome :: runAll (step.marginAfter margin) rest s

/-- Runs steps on a new store. -/
def session (steps : List Step) : List Answer :=
  runAll Target.Margin.start steps Store.initial

end Step

namespace Build

/-- Builds a node in a new store and reports on it view by view. -/
def inspect (node : Recipe) (views : List View) : Answer :=
  let x : Build Answer := do
    let v ← node.build
    return .record [("answers", .list (← views.mapM fun view => Build.look (view.ask v)))]
  Answer.ofOutcome (x Store.initial).1

/-- Builds values in a new store and reports nothing. -/
def discard (values : List Recipe) : Answer :=
  let x : Build Answer := do
    let _ ← Recipe.buildAll values
    return .null
  Answer.ofOutcome (x Store.initial).1

/-- Builds a value after a pattern for it, which leaves it as it is. -/
def passOn (pattern value : Recipe) : Answer :=
  let x : Build Answer := do
    let _ ← pattern.build
    Look.answer (← value.build)
  Answer.ofOutcome (x Store.initial).1

end Build

end ProgramTree
