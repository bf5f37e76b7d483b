/-
Rules for statements.
-/
import ProgramTree.Target.Convert.Expressions

namespace ProgramTree.Target.Convert

open Look

/-! ## Assignments -/

/-- The bound names of targets, `i` of them already walked over; none if a target has
no name. -/
def boundNames (targets : Value) : Nat → List Value → Look (Option (List Term))
  | _, [] => do
    leave targets 0
    return some []
  | i, t :: rest => do
    match ← field? t .name with
    | some w =>
      let first := Term.store (← Look.doc w)
      return (← boundNames targets (i + 1) rest).map fun more => first :: more
    | none =>
      leave targets (i + 1)
      return none

/-- An assignment to several targets. -/
def assignment : Rule := fun visit v => do
  match ← truthyField? v .targets with
  | none => standIn v
  | some targets =>
    match ← boundNames targets 0 (← items targets) with
    | none => standIn v
    | some names =>
      match ← field? v .value with
      | some w => return .assign names (← visit w) false
      | none => standIn v

/-- An assignment to a variable. -/
def variableAssignment : Rule := requiring [.name, .value] fun visit v => do
  let target := Term.store (← fieldDoc v .name)
  return .assign [target] (← visitField visit v .value) false

/-- An assignment that changes a value; an unknown sign is taken for a sum. -/
def augmented : Rule := requiring [.target, .value, .opCode] fun visit v => do
  let target ← visitField visit v .target
  let value ← visitField visit v .value
  let sign ← signOf BinarySign.ofAugmented? (← field v .opCode)
  return .augAssign target.bound (sign.getD .add) value

/-- A declaration inside an expression. -/
def inlineDeclaration : Rule := requiring [.name, .type] fun visit v => do
  let target := Term.store (← fieldDoc v .name)
  let hint ← visitField visit v .type
  return .annAssign target hint (← visitTrue visit v .value .absent)

/-- The hint of a declaration: its type, if that is a name or a part of
something. -/
def hint (visit : Visit) (v : Value) : Look Term := do
  let t ← match ← truthyField? v .type with
    | some w => visit w
    | none => visitTrue visit v .plainType (Term.load "object")
  match t with
  | .name .. | .attribute .. | .subscript .. => return t
  | _ => return Term.load "object"

/-- A declaration. -/
def declaration : Rule := requiring [.name] fun visit v => do
  let target := Term.store (← fieldDoc v .name)
  let hint ← hint visit v
  let value ← match ← field? v .value with
    | some .none | none => pure .absent
    | some w => visit w
  return .annAssign target hint value

/-- A deletion. -/
def delete : Rule := requiring [.value] fun visit v => do
  return .delete (← visitEach visit (← field v .value))

/-! ## Branches -/

/-- A conditional statement. -/
def ifStmt : Rule := requiring [.condition] fun visit v => do
  let body ← fieldBlock visit v .thenBranch
  let orElse ← match ← truthyField? v .elseBranch with
    | some b => block visit b
    | none => pure []
  return .ifStmt (← visitField visit v .condition) body orElse

/-- A branch of a selection; without a condition it takes everything. -/
def caseStmt : Rule := requiring [.condition] fun visit v => do
  let pattern ← match ← field v .condition with
    | .none => pure .wildcard
    | c => visit c
  return .matchCase pattern (← fieldBlock visit v .body)

/-- A selection. -/
def switch : Rule := requiring [.value, .cases] fun visit v => do
  let subject ← visitField visit v .value
  let cases ← field v .cases
  return .matchStmt subject (← if ← has cases .nodes then visitNodes visit cases else pure [])

/-! ## Loops -/

/-- A loop with its condition first. -/
def whileStmt : Rule := requiring [.condition] fun visit v => do
  let test ← visitField visit v .condition
  return .whileLoop test (← fieldBlock visit v .body)

/-- A loop with its condition last: it never ends by itself, and is left at the end of
its body. -/
def doWhileStmt : Rule := requiring [.body, .condition] fun visit v => do
  let body ← fieldBlock visit v .body
  let condition ← visitField visit v .condition
  let leaving := Term.ifStmt (negated condition) [.breakLoop] []
  return .whileLoop (.constant (.bool true)) (body ++ [leaving])

/-- A loop over a range. -/
def rangeStmt : Rule := requiring [.loopVariable, .start] fun visit v => do
  let target := Term.store (← fieldDoc (← field v .loopVariable) .name)
  let start ← visitField visit v .start
  let finish ← visitField visit v .finish
  let step ← match ← field? v .step with
    | some w => visit w
    | none => pure .absent
  let bounds := [start, finish] ++ (if step.isTrue then [step] else [])
  return .forLoop target (Term.callOf "range" bounds) (← fieldBlock visit v .body) false

/-- The end of a counted loop: what its condition first compares with. -/
def countEnd (visit : Visit) (condition : Value) : Look Term := do
  match ← truthyField? condition .comparators with
  | some cs => visit (← item cs 0)
  | none => return .constant (.int 10)

/-- A counted loop: a range from the initial value to the end. -/
def countStmt : Rule := requiring [.initializer, .condition, .update] fun visit v => do
  let initializer ← field v .initializer
  let target := Term.store (← fieldDoc initializer .name)
  let start ← match ← field? initializer .value with
    | some w => visit w
    | none => pure (.constant (.int 0))
  let finish ← countEnd visit (← field v .condition)
  let iterable := Term.callOf "range" [start, finish]
  return .forLoop target iterable (← fieldBlock visit v .body) false

/-! ## Faults -/

/-- What is raised when nothing better is known. -/
def unknownException : Term :=
  Term.callOf "Exception" [Term.textConstant "Unknown exception"]

/-- The raised term for a converted exception: a call as it is, a name as a call. -/
def raised : Term → Term
  | .call f args keywords => .call f args keywords
  | .name id c => .call (.name id c) [] []
  | _ => unknownException

/-- The raised term for an exception. -/
def exceptionTerm (visit : Visit) (e : Value) : Look Term := do
  match ← field? e .fn with
  | some fn =>
    match ← calledName? fn with
    | some w =>
      let id ← Look.doc w
      return .call (.name id .load) (← callArguments visit e) []
    | none => return raised (← visit e)
  | none => return raised (← visit e)

/-- A raised exception. -/
def throwStmt : Rule := fun visit v => do
  match ← truthyField? v .exception with
  | some e => return .raise (← rescue (exceptionTerm visit e) fun _ => return unknownException)
  | none => return .raise .absent

/-- The name under which a handler knows the exception. -/
def handlerName (v : Value) : Look Doc := do
  match ← truthyField? v .name with
  | some w =>
    match ← field? w .name with
    | some inner => Look.doc inner
    | none => return .text (← text w)
  | none => return .null

/-- A handler: it catches the first of its types. -/
def handler : Rule := fun visit v => do
  let type ← match ← truthyField? v .types with
    | some types => visit (← item types 0)
    | none => pure .absent
  let name ← handlerName v
  return .handler type name (← fieldBlock visit v .body)

/-- A guarded block. -/
def tryStmt : Rule := requiring [.body] fun visit v => do
  let body ← block visit (← field v .body)
  let handlers ← match ← truthyField? v .handlers with
    | some hs => visitEach visit hs
    | none => pure []
  let finalBody ← match ← truthyField? v .finallyHandler with
    | some f => block visit (← field f .body)
    | none => pure []
  return .tryStmt body handlers finalBody

/-- A block that is always run at the end, on its own. -/
def finallyStmt : Rule := requiring [.body] fun visit v => do
  return .tryStmt [.pass] [] (← block visit (← field v .body))

/-! ## Imports -/

/-- An imported name. -/
def importName : Rule := fun _ v => do
  match ← field? v .name with
  | some w =>
    let name ← Look.doc w
    let asname ← match ← field? v .asname with
      | some a => Look.doc a
      | none => pure .null
    return .imported name asname
  | none => return .imported (.text "") .null

/-- An import. -/
def importStmt : Rule := fun visit v => do
  match ← field? v .names with
  | some names => return .importing (← visitEach visit names)
  | none => return .importing [.imported (.text "") .null]

/-- An import from a module. -/
def importFrom : Rule := requiring [.names, .moduleName] fun visit v => do
  let names ← visitEach visit (← field v .names)
  let level ← match ← field? v .level with
    | some l => Look.doc l
    | none => pure (.int 0)
  return .importFrom (← fieldDoc v .moduleName) names level

/-- The name of an imported thing. -/
def importedName (v : Value) : Look Doc := do
  match ← field? v .name with
  | some w => Look.doc w
  | none => return .text (← text v)

/-- An assignment of imported things to numbered names; one alone has no number. -/
def importAssignment (word : String) (calls : List Term) : Term :=
  match calls with
  | [c] => .assign [Term.store (.text word)] c false
  | cs =>
    let ids := (List.range cs.length).map fun i => word ++ toString (i + 1)
    .assign [.tuple (ids.map fun id => Term.store (.text id)) .store] (.tuple cs .load) false

/-- The calls for imported things; each asks how many there are. -/
def importCalls (names : Value) (make : Doc → Term) : Look (List Term) :=
  forEach names fun n => do
    let name ← importedName n
    let _ ← length names
    return make name

/-- An import as an expression. -/
def importExpr : Rule := requiring [.names] fun _ v => do
  let calls ← importCalls (← field v .names) fun name =>
    Term.callOf "__import__" [.constant name]
  return importAssignment "module" calls

/-- The name of a module with the points before it. -/
def relativeName (v : Value) : Look String := do
  let points ← match ← field? v .level with
    | some l => levelPoints l
    | none => pure ""
  match ← truthyField? v .moduleName with
  | some m => return points ++ (← text m)
  | none => return points

/-- An import from a module as an expression. -/
def importFromExpr : Rule := requiring [.names, .moduleName] fun _ v => do
  let source ← relativeName v
  let calls ← importCalls (← field v .names) fun name =>
    let fromList := Term.keyword "fromlist" (.list [.constant name])
    let imported := Term.call (Term.load "__import__") [Term.textConstant source] [fromList]
    Term.callOf "getattr" [imported, .constant name]
  return importAssignment "name" calls

end ProgramTree.Target.Convert
