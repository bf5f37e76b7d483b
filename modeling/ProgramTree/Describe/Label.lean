/-
Labels: one line of text for a node.

A form has a label rule of its own or the one of the nearest form that it
refines; without any, a label is the name of the form.
-/
import ProgramTree.Describe
import ProgramTree.Text.Blank

namespace ProgramTree.Label

open Look

/-- How a node is labelled, given the descriptions of smaller values. -/
abbrev Rule := Describe → Value → Look String

/-! ## Places, types and data -/

/-- Line and column between braces. -/
def place : Rule := fun d v => do
  let line ← d.fieldText v .line
  let col ← d.fieldText v .col
  return "\x7bline: " ++ line ++ ", col: " ++ col ++ "\x7d"

/-- The name of a node's form. -/
def formName (v : Value) : Look String := do
  return ((← node? v).map fun n => n.form.name).getD ""

/-- A form and its name. -/
def dataType : Rule := fun d v => do
  return (← formName v) ++ ": " ++ (← d.fieldText v .name)

/-- A form and the name between brackets. -/
def identifier : Rule := fun d v => do
  return (← formName v) ++ "[" ++ (← d.fieldText v .name) ++ "]"

/-- A form and the value between brackets. -/
def literal : Rule := fun d v => do
  return (← formName v) ++ "(" ++ (← d.fieldText v .value) ++ ")"

/-- A fixed word and a field between two signs. -/
def wrapped (opening : String) (f : Field) (closing : String) : Rule := fun d v => do
  return opening ++ (← d.fieldText v f) ++ closing

/-- The two parts of a complex number. -/
def complex : Rule := fun d v => do
  let real ← d.text (← item (← field v .value) 0)
  let imag ← d.text (← item (← field v .value) 1)
  return "LiteralComplex(" ++ real ++ " + " ++ imag ++ "j)"

/-- The element types of a collection type. -/
def elementTypes (name : String) : Rule := fun d v => do
  return name ++ "[" ++ (← d.joined ", " (← field v .elementTypes)) ++ "]"

/-- The types of keys and values. -/
def dictType : Rule := fun d v => do
  let key ← d.fieldText v .keyType
  return "DictType[" ++ key ++ ", " ++ (← d.fieldText v .valueType) ++ "]"

/-- A declared name and the form of its type. -/
def declaration (name : String) : Rule := fun d v => do
  let type ← typeName (← field v .type)
  return name ++ "[" ++ (← d.fieldText v .name) ++ ", " ++ type ++ "]"

/-- The names that are deleted. -/
def delete : Rule := fun d v => do
  return "DeleteStmt[" ++ (← d.joined ", " (← field v .value)) ++ "]"

/-! ## Operators and assignments -/

/-- A unary operator and its operand. -/
def unary : Rule := fun d v => do
  let op ← d.fieldText v .opCode
  return "UnaryOp[" ++ op ++ "](" ++ (← d.fieldText v .operand) ++ ")"

/-- A binary operator and its operands. -/
def binary : Rule := fun d v => do
  let op ← d.fieldText v .opCode
  let lhs ← d.fieldText v .lhs
  return "BinaryOp[" ++ op ++ "](" ++ lhs ++ "," ++ (← d.fieldText v .rhs) ++ ")"

/-- A Boolean operator between its operands. -/
def boolBinary : Rule := fun d v => do
  let lhs ← d.fieldText v .lhs
  let op ← d.fieldText v .opCode
  return "(" ++ lhs ++ " " ++ op ++ " " ++ (← d.fieldText v .rhs) ++ ")"

/-- A Boolean operator before its operand. -/
def boolUnary : Rule := fun d v => do
  let op ← d.fieldText v .opCode
  return "(" ++ op ++ " " ++ (← d.fieldText v .operand) ++ ")"

/-- Both sides of an assignment inside an expression. -/
def walrus : Rule := fun d v => do
  let lhs ← d.fieldText v .lhs
  return "WalrusOp[:=](" ++ lhs ++ " := " ++ (← d.fieldText v .rhs) ++ ")"

/-- The signs of a chain of comparisons. -/
def compare : Rule := fun _ v => do
  return "Compare[" ++ (← joinedTexts ", " (← field v .ops)) ++ "]"

/-- An expression and the type that it is cast to. -/
def typeCast : Rule := fun d v => do
  let expr ← d.fieldText v .expr
  return "TypeCastExpr (" ++ expr ++ ", " ++ (← d.fieldText v .targetType) ++ ")"

/-! ## Callables -/

/-- How many arguments there are. -/
def arguments : Rule := fun _ v => do
  return "Arguments(" ++ toString (← length (← field v .nodes)) ++ ")"

/-- The name and the arguments of a call. -/
def call : Rule := fun d v => do
  let args ← d.joined ", " (← field v .args)
  return "Call[" ++ (← d.fieldText v .fn) ++ ": " ++ args ++ "]"

/-- The parameters and the body of an anonymous function. -/
def lambda : Rule := fun d v => do
  let names ← forEach (← field v .params) fun p => field p .name
  let params := String.intercalate ", " (← textsFrom 0 names)
  return "lambda " ++ params ++ ": " ++ (← d.fieldText v .body)

/-- A value to be yielded, if there is one. -/
def yieldStmt : Rule := fun d v => do
  match ← field v .value with
  | .none => return "YieldStmt"
  | w => return "YieldStmt[" ++ (← d.text w) ++ "]"

/-! ## Control flow -/

/-- The variable and the range of a loop. -/
def rangeLoop (name : String) : Rule := fun d v => do
  let start ← field v .start
  let finish ← field v .finish
  let step ← field v .step
  let variableName ← field (← field v .loopVariable) .name
  return name ++ "(" ++ (← d.text variableName) ++ "=[" ++ (← d.text start) ++ ":"
    ++ (← d.text finish) ++ ":" ++ (← d.text step) ++ "])"

/-- The variable of a loop. -/
def loopVariable (name : String) : Rule := fun d v => do
  return name ++ "[" ++ (← d.fieldText (← field v .loopVariable) .name) ++ "]"

/-- The three parts of the head of a counting loop. -/
def countLoop (name : String) : Rule := fun d v => do
  let initializer ← field v .initializer
  let condition ← field v .condition
  let update ← field v .update
  return name ++ "(" ++ (← d.text initializer) ++ ";" ++ (← d.text condition) ++ ";"
    ++ (← d.text update) ++ ")"

/-- The condition of a branch, or that it is the default. -/
def caseBranch : Rule := fun d v => do
  if ← truthy (← field v .condition) then
    return "CaseStmt[" ++ (← d.fieldText v .condition) ++ "]"
  else return "CaseStmt[default]"

/-- How many branches there are. -/
def switch : Rule := fun _ v => do
  return "SwitchStmt[" ++ toString (← length (← field v .cases)) ++ "]"

/-- The name of the label to go to. -/
def goto : Rule := fun d v => do
  return "Goto[" ++ (← d.fieldText (← field v .label) .name) ++ "]"

/-- What is thrown, if anything. -/
def throwStmt : Rule := fun d v => do
  if ← truthy (← field v .exception) then
    return "ThrowStmt[" ++ (← d.fieldText v .exception) ++ "]"
  else return "ThrowStmt"

/-- An expression and the name that it is bound to. -/
def withItem : Rule := fun d v => do
  if ← truthy (← field v .instanceName) then
    let context ← d.fieldText v .contextExpr
    return context ++ " as " ++ (← d.fieldText v .instanceName)
  else d.fieldText v .contextExpr

/-- The items of a managed context. -/
def withStmt : Rule := fun d v => do
  return "WithStmt[" ++ (← d.joined ", " (← field v .items)) ++ "]"

/-! ## Packages, imports and subscripts -/

/-- A name and what it is called here. -/
def importedName : Rule := fun d v => do
  if ← truthy (← field v .asname) then
    let name ← d.fieldText v .name
    return name ++ " as " ++ (← d.fieldText v .asname)
  else
    match ← field v .name with
    | .text s => return s
    | w => fail (.labelNotText (← typeName w))

/-- The imported names. -/
def importNames : Rule := fun d v => do
  return "import " ++ (← d.joined ", " (← field v .names))

/-- The module of an import: a point for each level, and its name. -/
def importSource (d : Describe) (v : Value) : Look String := do
  let points ← levelPoints (← field v .level)
  if ← truthy (← field v .moduleName) then return points ++ (← d.fieldText v .moduleName)
  else return points

/-- The module and the imported names. -/
def importFrom : Rule := fun d v => do
  let source ← importSource d v
  return "from " ++ source ++ " import " ++ (← d.joined ", " (← field v .names))

/-- What is indexed, and by what. -/
def subscript : Rule := fun d v => do
  let bound := fun (f : Field) => do
    if ← isA (← field v f) .literalNone then pure "" else pure (":" ++ (← d.fieldText v f))
  let lower ←
    if ← isA (← field v .lower) .literalNone then d.fieldText v .index else d.fieldText v .lower
  let upper ← bound .upper
  let step ← bound .step
  return "SubscriptExpr(" ++ (← d.fieldText v .value) ++ "[" ++ lower ++ upper ++ step ++ "])"

/-! ## Classes -/

/-- The visibility of everyone. -/
def everyone : Value :=
  .member (.visibility .everyone)

/-- Compares a value with one of another sort by an overloaded operator, which finds that
the other one has no type. -/
def refuseOverloaded (v : Value) (other : String) : Look Unit := do
  if ← isA v .dataTypeOps then
    let _ ← field v .type
    fail (.noField other Field.type.key)

/-- The name of a visibility, unless it is that of everyone. -/
def visibilityName? (v : Value) : Look (Option Value) := do
  let visibility ← field v .visibility
  if visibility = everyone then return none
  refuseOverloaded visibility Enumeration.visibility.name
  return some (← field visibility .name)

/-- The name of a visibility in small letters, unless it is that of everyone. -/
def visibilityWord (v : Value) : Look String := do
  match ← visibilityName? v with
  | none => return ""
  | some (.text s) => return s.map Char.toLower
  | some w => lacks w "lower"

/-- Decorators, each on a line. -/
def decorators (d : Describe) (v : Value) : Look String := do
  let lines ← forEach (← field v .decorators) fun w => do return "@" ++ (← d.text w) ++ "\n"
  return String.join lines

/-- The head of a class. -/
def classDecl : Rule := fun d v => do
  let visibility ← visibilityName? v
  let isAbstract ← truthy (← field v .isAbstract)
  let modifiers := String.intercalate " " (← textsFrom 0
    (visibility.toList ++ if isAbstract then [.text "abstract"] else []))
  let bases ←
    if ← truthy (← field v .bases) then d.joined ", " (← field v .bases) else pure ""
  let decorated ← decorators d v
  let metaclass ←
    if ← truthy (← field v .metaclass) then
      pure (" metaclass=" ++ (← d.fieldText v .metaclass))
    else pure ""
  let name ← d.fieldText v .name
  let inherited := if bases.isEmpty then "" else "(" ++ bases ++ ")"
  return Text.strip (decorated ++ modifiers ++ " class " ++ name ++ inherited ++ metaclass)

/-- The head of a class and the labels of its body. -/
def classDef : Rule := fun d v => do
  let head ← classDecl d v
  let nodes ← field (← field v .body) .nodes
  let body ←
    if ← truthy nodes then d.joined "\n    " nodes else pure "    pass"
  return head ++ ":\n    " ++ body

/-- An enumeration and its members. -/
def enumDecl : Rule := fun d v => do
  let visibility ← visibilityWord v
  let head := Text.strip (visibility ++ " enum " ++ (← d.fieldText v .name))
  let members ← d.joined ",\n    " (← field v .attributes)
  return head ++ " \x7b\n    " ++ members ++ "\n\x7d"

/-- A structure and its attributes. -/
def structDecl : Rule := fun d v => do
  let decorated ← decorators d v
  let visibility ← visibilityWord v
  let head := Text.strip (visibility ++ " struct " ++ (← d.fieldText v .name))
  let attributes ← d.joined "\n    " (← field v .attributes)
  return decorated ++ head ++ " \x7b\n    " ++ attributes ++ "\n\x7d"

/-! ## Which form has which rule -/

/-- A fixed label. -/
def word (s : String) : Rule := fun _ _ => pure s

/-- The rule that a form has of its own. -/
def own? : Form → Option Rule
  | .place => some place
  | .dataType => some dataType
  | .parenthesizedExpr => some (wrapped "ParenthesizedExpr(" .value ")")
  | .variableDeclaration => some (declaration "VariableDeclaration")
  | .inlineVariableDeclaration => some (declaration "InlineVariableDeclaration")
  | .identifier => some identifier
  | .deleteStmt => some delete
  | .argument => some (declaration "Argument")
  | .arguments => some arguments
  | .functionCall => some call
  | .functionReturn => some (wrapped "Return[" .value "]")
  | .functionDef => some (wrapped "FunctionDef[" .name "]")
  | .functionAsyncDef => some (wrapped "FunctionAsyncDef[" .name "]")
  | .lambdaExpr => some lambda
  | .awaitExpr => some (wrapped "AwaitExpr[" .value "]")
  | .yieldExpr => some (wrapped "YieldExpr[" .value "]")
  | .yieldStmt => some yieldStmt
  | .yieldFromExpr => some (wrapped "YieldFromExpr[" .value "]")
  | .classDeclStmt => some classDecl
  | .classDefStmt => some classDef
  | .enumDeclStmt => some enumDecl
  | .structDeclStmt => some structDecl
  | .comprehensionClause => some (wrapped "COMPREHENSION[is_async=" .isAsync "]")
  | .setComprehension => some (word "SET-COMPREHENSION")
  | .withItem => some withItem
  | .withStmt => some withStmt
  | .throwStmt => some throwStmt
  | .catchHandlerStmt => some (wrapped "CatchHandlerStmt[" .name "]")
  | .exceptionHandlerStmt => some (word "ExceptionHandlerStmt")
  | .finallyHandlerStmt => some (word "FinallyStmt")
  | .ifStmt => some (wrapped "IfStmt[" .condition "]")
  | .ifExpr => some (wrapped "IfExpr[" .condition "]")
  | .forRangeLoopStmt => some (rangeLoop "ForRangeLoopStmt")
  | .forRangeLoopExpr => some (loopVariable "ForRangeLoopExpr")
  | .forCountLoopStmt => some (countLoop "ForCountLoopStmt")
  | .forCountLoopExpr => some (countLoop "ForCountLoopExpr")
  | .asyncForRangeLoopStmt => some (rangeLoop "AsyncForRangeLoopStmt")
  | .asyncForRangeLoopExpr => some (loopVariable "AsyncForRangeLoopExpr")
  | .breakStmt => some (word "BreakStmt")
  | .continueStmt => some (word "ContinueStmt")
  | .whileStmt => some (wrapped "WhileStmt[" .condition "]")
  | .whileExpr => some (wrapped "WhileExpr[" .condition "]")
  | .caseStmt => some caseBranch
  | .switchStmt => some switch
  | .gotoStmt => some goto
  | .doWhileStmt => some (wrapped "DoWhileStmt[" .condition "]")
  | .doWhileExpr => some (wrapped "DoWhileExpr[" .condition "]")
  | .walrusOp => some walrus
  | .assignmentExpr => some (wrapped "AssignmentExpr[" .value "]")
  | .variableAssignment => some (wrapped "VariableAssignment[" .name "]")
  | .augAssign => some (wrapped "AugAssign[" .opCode "]")
  | .compareOp => some compare
  | .starred => some (wrapped "Starred[*](" .value ")")
  | .moduleRoot => some (wrapped "Module[" .name "]")
  | .package => some (wrapped "PACKAGE[" .name "]")
  | .program => some (wrapped "PROGRAM[" .name "]")
  | .aliasExpr => some importedName
  | .importStmt | .importExpr => some importNames
  | .importFromStmt | .importFromExpr => some importFrom
  | .subscriptExpr => some subscript
  | .typeCastExpr => some typeCast
  | .listType => some (elementTypes "ListType")
  | .tupleType => some (elementTypes "TupleType")
  | .setType => some (wrapped "SetType[" .elementType "]")
  | .dictType => some dictType
  | .unaryOp => some unary
  | .binaryOp => some binary
  | .boolBinaryOp => some boolBinary
  | .boolUnaryOp => some boolUnary
  | .literal => some literal
  | .literalComplex => some complex
  | .literalDate => some (wrapped "LiteralDate[" .value "]")
  | .literalTime => some (wrapped "LiteralTime[" .value "]")
  | .literalTimestamp => some (wrapped "LiteralTimestamp[" .value "]")
  | .literalDateTime => some (wrapped "LiteralDateTime[" .value "]")
  | _ => none

/-- The label of a node: by the nearest rule, or the name of its form. -/
def ofNode (d : Describe) (n : Node) (v : Value) : Look String :=
  match n.form.ancestors.findSome? own? with
  | some rule => rule d v
  | none => pure n.form.name

end ProgramTree.Label
