/-
Rules for functions, classes and modules.
-/
import ProgramTree.Target.Convert.Statements

namespace ProgramTree.Target.Convert

open Look

/-! ## Functions -/

/-- A parameter with its type. -/
def argument : Rule := requiring [.name] fun visit v => do
  let hint ← visitTrue visit v .type .absent
  return .arg (← fieldDoc v .name) hint

/-- Parameters. -/
def arguments : Rule := requiring [.nodes] fun visit v => do
  return .arguments (← visitNodes visit v)

/-- The nodes of a list of parameters, if it has any. -/
def parameterNodes (args : Value) : Look (List Value) := do
  match ← field? args .nodes with
  | some nodes => items nodes
  | none => return []

/-- Parameters that know their places. -/
def placedArguments : Term → Except Fault Term
  | .arguments args => do return .arguments (← args.mapM Term.placed)
  | .call func args keywords => do return .call func (← args.mapM Term.placed) keywords
  | .lambda .. | .functionDef .. | .asyncFunctionDef .. => .error (.notIterable "arguments")
  | t => .ok t

/-- A function; it and its parameters know their places. -/
def functionDef : Rule := requiring [.prototype] fun visit v => do
  let prototype ← field v .prototype
  let args ← visitField visit prototype .args
  let returns ← visitTrue visit prototype .returnType .absent
  let body ← block visit (← field v .body)
  let name ← fieldDoc prototype .name
  return .functionDef name (← ofOutcome (placedArguments args)) body returns true

/-- A prototype: a function that does nothing. -/
def prototype : Rule := requiring [.name] fun visit v => do
  let params ← match ← field? v .args with
    | some args => parameterNodes args
    | none => pure []
  let args ← params.mapM visit
  let returns ← visitTrue visit v .returnType .absent
  return .functionDef (← fieldDoc v .name) (.arguments args) [.pass] returns false

/-- Whether an asynchronous function has all that its conversion needs. -/
def isWholeFunction (v : Value) : Look Bool := do
  if ← hasAll v [.name, .prototype] then has (← field v .prototype) .args else return false

/-- An asynchronous function; its parameters have no types. -/
def asyncFunctionDef : Rule := fun visit v => do
  if !(← isWholeFunction v) then return ← standIn v
  let prototype ← field v .prototype
  let params ← parameterNodes (← field prototype .args)
  let args ← bareParameters params (some (.text "arg"))
  let returns ← visitTrue visit prototype .returnType .absent
  let body ← fieldBlock visit v .body
  return .asyncFunctionDef (← fieldDoc v .name) (.arguments args) body returns false

/-! ## Classes -/

/-- A class; an abstract one has the base that says so. -/
def classDef : Rule := requiring [.name] fun visit v => do
  let bases := if (← truthyField? v .isAbstract).isSome then [Term.load "ABC"] else []
  let body ← fieldBlock visit v .body
  return .classDef (← fieldDoc v .name) bases body []

/-- What an attribute adds to the body of an enumeration: a declaration is a member
with a value of its own, and of other things only statements and expressions count. -/
def enumMember (visit : Visit) (member : Value) : Look (List Term) := do
  if ← isA member .variableDeclaration then
    let target := Term.store (← fieldDoc member .name)
    return [.assign [target] (Term.callOf "auto" []) false]
  else
    let t ← visit member
    return match t.sort with
      | .statement => [t]
      | .expression => [.expr t]
      | _ => []

/-- An enumeration. -/
def enumDecl : Rule := requiring [.name, .attributes] fun visit v => do
  let parts ← forEach (← field v .attributes) (enumMember visit)
  let body := if parts.flatten.isEmpty then [.pass] else parts.flatten
  return .classDef (← fieldDoc v .name) [Term.load "Enum"] body []

/-- A structure: a class with a decorator, its attributes as they are converted. -/
def structDecl : Rule := requiring [.name] fun visit v => do
  let body ← match ← truthyField? v .attributes with
    | some attributes => visitEach visit attributes
    | none => pure [.pass]
  return .classDef (← fieldDoc v .name) [] body [Term.load "dataclass"]

/-! ## Modules and containers -/

/-- A module: it shows a body only if it was given one of its own. -/
def moduleRoot : Rule := fun visit v => do
  match ← field? v .body with
  | some b => return .moduleRoot (← block visit b)
  | none => return .moduleRoot [.pass]

/-- A container: its nodes one by one. -/
def nodeList : Rule := fun visit v => do
  if ← has v .nodes then return .items (← visitNodes visit v)
  else return .items [← standIn v]

/-- A block: a body. -/
def blockStmt : Rule := fun visit v => do
  return .items (← block visit v)

end ProgramTree.Target.Convert
