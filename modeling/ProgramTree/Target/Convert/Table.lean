/-
Which rule converts which form, and the conversion of all values.

A form without a rule of its own takes that of the nearest form that it refines.
Conversions go from node to node inside, and a store has no longer chain of nodes
than it has cells.
-/
import ProgramTree.Target.Convert.Definitions
import ProgramTree.Target.Convert.Types

namespace ProgramTree

namespace Target.Convert

/-- A rule that promises terms of one class. -/
def giving (className : String) (rule : Rule) : Option Method :=
  some ⟨.oneOf [className], rule⟩

/-- The rule of a form's own. -/
def own? : Form → Option Method
  | .aliasExpr => giving "alias" importName
  | .andOp => giving "BoolOp" (ofOperands (logical .and))
  | .argument => giving "arg" argument
  | .arguments => giving "arguments" arguments
  | .assignmentExpr => giving "Assign" assignment
  | .nodeList => some ⟨.several, nodeList⟩
  | .asyncForRangeLoopExpr => giving "ListComp" (rangeLoop true)
  | .augAssign => giving "AugAssign" augmented
  | .awaitExpr => giving "Await" (ofValue .await)
  | .binaryOp => some ⟨.oneOf ["BinOp", "Call"], binary⟩
  | .block => some ⟨.several, blockStmt⟩
  | .breakStmt => giving "Break" fun _ _ => return .breakLoop
  | .caseStmt => some ⟨.anything, caseStmt⟩
  | .catchHandlerStmt => giving "ExceptHandler" handler
  | .classDefStmt => giving "ClassDef" classDef
  | .compareOp => giving "Compare" compare
  | .comprehensionClause => giving "comprehension" clause
  | .continueStmt => giving "Continue" fun _ _ => return .continueLoop
  | .int8 | .int16 | .int32 | .int64 | .uint8 | .uint16 | .uint32 | .uint64 | .uint128 =>
    giving "Name" (nameOf "int")
  | .float16 | .float32 | .float64 => giving "Name" (nameOf "float")
  | .complex32 | .complex64 => giving "Name" (nameOf "complex")
  | .utf8Char | .utf8String => giving "Name" (nameOf "str")
  | .date => giving "Name" (nameOf "date")
  | .dateTime => giving "Name" (nameOf "datetime")
  | .time => giving "Name" (nameOf "time")
  | .timestamp => giving "Name" (nameOf "timestamp")
  | .dataType => giving "Name" dataType
  | .deleteStmt => giving "Delete" delete
  | .doWhileExpr => giving "ListComp" doWhileLoop
  | .doWhileStmt => giving "While" doWhileStmt
  | .ellipsis => giving "Constant" fun _ _ => return .ellipsis
  | .enumDeclStmt => giving "ClassDef" enumDecl
  | .exceptionHandlerStmt => giving "Try" tryStmt
  | .finallyHandlerStmt => giving "Try" finallyStmt
  | .forCountLoopStmt => giving "For" countStmt
  | .forRangeLoopExpr => giving "ListComp" (rangeLoop false)
  | .forRangeLoopStmt => giving "For" rangeStmt
  | .functionAsyncDef => giving "AsyncFunctionDef" asyncFunctionDef
  | .functionCall => giving "Call" call
  | .functionDef => giving "FunctionDef" functionDef
  | .functionPrototype => giving "FunctionDef" prototype
  | .functionReturn => giving "Return" (ofOptionalValue .giveBack)
  | .generatorExpr => giving "GeneratorExp" (comprehension .generator)
  | .identifier => giving "Name" identifier
  | .ifExpr => giving "IfExp" conditional
  | .ifStmt => giving "If" ifStmt
  | .importExpr => giving "Assign" importExpr
  | .importFromExpr => giving "Assign" importFromExpr
  | .importFromStmt => giving "ImportFrom" importFrom
  | .importStmt => giving "Import" importStmt
  | .inlineVariableDeclaration => giving "AnnAssign" inlineDeclaration
  | .lambdaExpr => giving "Lambda" lambda
  | .listComprehension => giving "ListComp" (comprehension .listComp)
  | .literalBoolean => giving "Constant" (valueOr (.bool false))
  | .literalInt8 | .literalInt16 | .literalInt32 | .literalInt64 | .literalInt128
  | .literalUInt8 | .literalUInt16 | .literalUInt32 | .literalUInt64 | .literalUInt128 =>
    giving "Constant" (valueOr (.int 0))
  | .literalFloat16 | .literalFloat32 | .literalFloat64 =>
    giving "Constant" (valueOr (.float (Double.ofInt 0)))
  | .literalComplex32 | .literalComplex64 => giving "Call" complex
  | .literalUTF8Char | .literalUTF8String => giving "Constant" (textOr "")
  | .literalDate => giving "Call" date
  | .literalDateTime => giving "Name" (nameOf "datetime")
  | .literalTime => giving "Name" (nameOf "time")
  | .literalTimestamp => giving "Name" (nameOf "timestamp")
  | .literalComplex => giving "Name" (nameOf "complex")
  | .literalDict => giving "Dict" dictionary
  | .literalList => giving "List" (collection .list)
  | .literalNone => giving "Constant" (constant .null)
  | .literalSet => giving "Set" (collection .set)
  | .literalString => giving "Constant" (valueOr (.text ""))
  | .literalTuple => giving "Tuple" (collection fun es => .tuple es .load)
  | .moduleRoot => giving "Module" moduleRoot
  | .nandOp => giving "UnaryOp" (ofOperands fun l r => negated (logical .and l r))
  | .norOp => giving "UnaryOp" (ofOperands fun l r => negated (logical .or l r))
  | .notOp => giving "UnaryOp" negation
  | .orOp => giving "BoolOp" (ofOperands (logical .or))
  | .parenthesizedExpr => some ⟨.oneTerm, ofValue id⟩
  | .setComprehension => giving "SetComp" (comprehension .setComp)
  | .starred => giving "Starred" (ofValue .starred)
  | .structDeclStmt | .structDefStmt => giving "ClassDef" structDecl
  | .switchStmt => some ⟨.anything, switch⟩
  | .subscriptExpr => giving "Subscript" subscript
  | .throwStmt => giving "Raise" throwStmt
  | .typeCastExpr => giving "Call" typeCast
  | .unaryOp => giving "UnaryOp" unary
  | .variableUse => giving "Name" variableUse
  | .variableAssignment => giving "Assign" variableAssignment
  | .variableDeclaration => giving "AnnAssign" declaration
  | .walrusOp => giving "NamedExpr" walrus
  | .whileExpr => giving "ListComp" whileLoop
  | .whileStmt => giving "While" whileStmt
  | .xnorOp => giving "UnaryOp" (ofOperands fun l r => negated (exclusive l r))
  | .xorOp => giving "BinOp" (ofOperands exclusive)
  | .yieldExpr => giving "Yield" (ofOptionalValue .yield)
  | .yieldFromExpr => giving "YieldFrom" (ofValue .yieldFrom)
  | .yieldStmt => giving "Expr" (ofOptionalValue fun t => .expr (.yield t))
  | _ => none

/-- The rule for a form. -/
def method? (form : Form) : Option Method :=
  form.ancestors.findSome? own?

/-- Converts a value by one step. -/
def step (visit : Visit) (v : Value) : Look Term := do
  match (← Look.node? v).bind fun n => method? n.form with
  | some m =>
    let t ← m.rule visit v
    Look.ofOutcome (m.promise.check t)
    return t
  | none => Look.fail (.unconvertible (← typePath v))

/-- Converts a value, down to a depth. -/
def toDepth : Nat → Visit
  | 0 => fun _ => Look.fail .tooDeep
  | depth + 1 => step (toDepth depth)

end Target.Convert

namespace Look

/-- The term that a node converts to. -/
def term (v : Value) : Look Target.Term := do
  Target.Convert.toDepth ((← store).cells.size + 1) v

end Look

end ProgramTree
