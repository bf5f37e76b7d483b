/-
Rules for expressions.
-/
import ProgramTree.Describe.Label
import ProgramTree.Target.Convert

namespace ProgramTree.Target.Convert

open Look

/-! ## Operators -/

/-- The two operands of an operator, made into a term. -/
def ofOperands (make : Term → Term → Term) : Rule := requiring [.lhs, .rhs] fun visit v => do
  let l ← visitField visit v .lhs
  let r ← visitField visit v .rhs
  return make l r

/-- A negated term. -/
def negated (t : Term) : Term :=
  .unary .not t

/-- A conjunction or disjunction. -/
def logical (sign : LogicalSign) (l r : Term) : Term :=
  .logical sign [l, r]

/-- An exclusive disjunction. -/
def exclusive (l r : Term) : Term :=
  .binary l .bitXor r

/-- The name of the function that stands for a sign without a meaning in the target. -/
def operatorName (code : Value) : Look String := do
  match code with
  | .text s =>
    let s := Text.replaceChar '@' "at" s
    let s := Text.replaceChar '&' "and" s
    return "operator_" ++ Text.replaceChar '|' "or" s
  | _ => lacks code "replace"

/-- A binary operator, or a call of a function that stands for it. -/
def binary : Rule := requiring [.lhs, .rhs, .opCode] fun visit v => do
  let code ← field v .opCode
  let sign ← signOf BinarySign.ofText? code
  let l ← visitField visit v .lhs
  let r ← visitField visit v .rhs
  match sign with
  | some s => return .binary l s r
  | none => return Term.callOf (← operatorName code) [l, r]

/-- A unary operator; one without a sign in the target gets a stand-in. -/
def unary : Rule := requiring [.opCode, .operand] fun visit v => do
  match ← signOf UnarySign.ofText? (← field v .opCode) with
  | some s => return .unary s (← visitField visit v .operand)
  | none => standIn v

/-- A negation. -/
def negation : Rule := requiring [.operand] fun visit v => do
  return negated (← visitField visit v .operand)

/-- A chain of comparisons; an unknown sign is taken for equality. -/
def compare : Rule := requiring [.left, .ops, .comparators] fun visit v => do
  let signs ← forEach (← field v .ops) fun op => do
    return (← signOf CompareSign.ofText? op).getD .eq
  let comparators ← visitEach visit (← field v .comparators)
  return .compare (← visitField visit v .left) signs comparators

/-- A named expression. -/
def walrus : Rule := requiring [.lhs, .rhs] fun visit v => do
  let target ← visitField visit v .lhs
  return .named target.bound (← visitField visit v .rhs)

/-! ## Wrapped values -/

/-- A value made into a term. -/
def ofValue (make : Term → Term) : Rule := requiring [.value] fun visit v => do
  return make (← visitField visit v .value)

/-- A value that may be missing, made into a term. -/
def ofOptionalValue (make : Term → Term) : Rule := fun visit v => do
  return make (← visitTrue visit v .value .absent)

/-- A cast: a call with the type and the expression. -/
def typeCast : Rule := requiring [.targetType, .expr] fun visit v => do
  let type ← visitField visit v .targetType
  return Term.callOf "cast" [type, ← visitField visit v .expr]

/-- A part of a slice, unless it is the literal for what is not there. -/
def slicePart (visit : Visit) (v : Value) (f : Field) : Look Term := do
  match ← field? v f with
  | some w => if ← isA w .literalNone then return .absent else visit w
  | none => return .absent

/-- A subscript: an index if there is one, else a slice. -/
def subscript : Rule := requiring [.value] fun visit v => do
  let value ← visitField visit v .value
  match ← slicePart visit v .index with
  | .absent =>
    let lower ← slicePart visit v .lower
    let upper ← slicePart visit v .upper
    let step ← slicePart visit v .step
    return .subscript value (.slice lower upper step)
  | index => return .subscript value index

/-- A branch of a conditional expression: its one node, or a stand-in for several. -/
def branch (visit : Visit) (v : Value) (f : Field) : Look Term := do
  match ← truthyField? v f with
  | some b => if (← length b) = 1 then visit (← item b 0) else standIn b
  | none => return .constant .null

/-- A conditional expression. -/
def conditional : Rule := requiring [.condition] fun visit v => do
  let body ← branch visit v .thenBranch
  let orElse ← branch visit v .elseBranch
  return .conditional (← visitField visit v .condition) body orElse

/-! ## Calls -/

/-- The call of a function that nobody knows. -/
def unknownFunction : Term :=
  Term.load "unknown_function"

/-- The name of a called function: that of its prototype, or its own. -/
def calledName? (fn : Value) : Look (Option Value) := do
  match ← field? fn .prototype with
  | some p =>
    match ← field? p .name with
    | some w => return some w
    | none => field? fn .name
  | none => field? fn .name

/-- The called function. -/
def function (visit : Visit) (fn : Value) : Look Term := do
  match ← calledName? fn with
  | some w => return .name (← Look.doc w) .load
  | none =>
    match fn with
    | .text s => return Term.load s
    | _ =>
      rescue (do
        match ← visit fn with
        | .name id c => return .name id c
        | .attribute t a => return .attribute t a
        | _ => return unknownFunction) fun _ => return unknownFunction

/-- The arguments of a call. -/
def callArguments (visit : Visit) (v : Value) : Look (List Term) := do
  match ← truthyField? v .args with
  | some args => visitEach visit args
  | none => return []

/-- A call. -/
def call : Rule := fun visit v => do
  match ← field? v .fn with
  | some fn =>
    let func ← function visit fn
    return .call func (← callArguments visit v) []
  | none => return .call unknownFunction [] []

/-- Parameters by name alone. -/
def bareParameters (params : List Value) (missing : Option Doc) : Look (List Term) :=
  params.mapM fun p => do
    match ← field? p .name, missing with
    | some w, _ => return .arg (← Look.doc w) .absent
    | none, some d => return .arg d .absent
    | none, none => lacks p "name"

/-- A function without a name. -/
def lambda : Rule := requiring [.body] fun visit v => do
  let args ← match ← truthyField? v .params with
    | some params => forEach params fun p => do return Term.arg (← fieldDoc p .name) .absent
    | none => pure []
  return .lambda (.arguments args) (← visitField visit v .body)

/-! ## Comprehensions -/

/-- A clause of a comprehension. -/
def clause : Rule := requiring [.target, .iterable] fun visit v => do
  let target ← visitField visit v .target
  let iterable ← visitField visit v .iterable
  let conditions ← match ← field? v .conditions with
    | some cs => visitEach visit cs
    | none => pure []
  return .comprehension target iterable conditions (← truthyField? v .isAsync).isSome

/-- A comprehension. -/
def comprehension (make : Term → List Term → Term) : Rule :=
  requiring [.element, .generators] fun visit v => do
    let element ← visitField visit v .element
    return make element (← visitEach visit (← field v .generators))

/-! ## Loops as expressions -/

/-- The element that a loop gives: the first node of its body. -/
def loopElement (visit : Visit) (v : Value) : Look Term := do
  match ← field? (← field v .body) .nodes with
  | some nodes => visit (← item nodes 0)
  | none => return Term.load "result"

/-- A comprehension over one clause. -/
def oneClause (element target iterable : Term) (conditions : List Term) (isAsync : Bool) : Term :=
  .listComp element [.comprehension target iterable conditions isAsync]

/-- A loop over a range, as a list. -/
def rangeLoop (isAsync : Bool) : Rule := requiring [.loopVariable, .body] fun visit v => do
  let target := Term.store (← fieldDoc (← field v .loopVariable) .name)
  let start ← visitTrue visit v .start (.constant (.int 0))
  let finish ← visitField visit v .finish
  let step ← visitTrue visit v .step (.constant (.int 1))
  let iterable := Term.callOf "range" [start, finish, step]
  return oneClause (← loopElement visit v) target iterable [] isAsync

/-- What a loop with a condition runs over: an iterator that never ends by itself. -/
def endless (body : Term) : Term :=
  Term.callOf "iter" [.lambda (.arguments []) body, .constant (.bool false)]

/-- A loop with its condition first, as a list. -/
def whileLoop : Rule := requiring [.condition, .body] fun visit v => do
  let element ← loopElement visit v
  let condition ← visitField visit v .condition
  return oneClause element (Term.store (.text "_")) (endless condition) [] false

/-- A loop with its condition last, as a list. -/
def doWhileLoop : Rule := requiring [.body, .condition] fun visit v => do
  let element ← loopElement visit v
  let condition ← visitField visit v .condition
  return oneClause element (Term.store (.text "_")) (endless (.constant (.bool true)))
    [condition] false

end ProgramTree.Target.Convert
