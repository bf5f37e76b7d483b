/-
The forms of nodes.

Every node has one form, and every form but the roots refines another one: a
`doWhileStmt` is a `whileStmt` is a `statementType` is a `node`. A form has a
name, which labels, answers and messages show, and a home, the dotted path under
which messages about unsupported nodes give it.
-/

namespace ProgramTree

/-- The forms of nodes, each followed by what refines it where that is near. -/
inductive Form
  | place | node | nodeList | expr | exprType | undefined | dataType | operatorType | statementType
  | parenthesizedExpr
  | block
  | variableDeclaration | inlineVariableDeclaration | identifier | variableUse | deleteStmt
  | argument | arguments | functionCall | functionPrototype | functionReturn | functionDef
  | lambdaExpr | functionAsyncDef | awaitExpr | yieldExpr | yieldStmt | yieldFromExpr
  | classDeclStmt | classDefStmt | enumDeclStmt | structDeclStmt | structDefStmt
  | comprehensionClause | comprehension | listComprehension | setComprehension | generatorExpr
  | withItem | withStmt
  | throwStmt | catchHandlerStmt | exceptionHandlerStmt | finallyHandlerStmt
  | ifStmt | ifExpr | forRangeLoopStmt | forRangeLoopExpr | forCountLoopStmt | forCountLoopExpr
  | asyncForRangeLoopStmt | asyncForRangeLoopExpr | breakStmt | continueStmt | whileStmt
  | whileExpr | caseStmt | switchStmt | gotoStmt | doWhileStmt | doWhileExpr
  | walrusOp | assignmentExpr | variableAssignment | augAssign | compareOp | starred
  | target | moduleRoot | package | program | aliasExpr | importStmt | importFromStmt | importExpr
  | importFromExpr
  | subscriptExpr | ellipsis
  | anyType | noneType
  | boolean
  | typeCastExpr
  | collectionType | listType | setType | dictType | tupleType
  | number | integer | unsignedInteger | signedInteger | int8 | int16 | int32 | int64 | int128
  | uint8 | uint16 | uint32 | uint64 | uint128 | floating | float16 | float32 | float64 | complex
  | complex32 | complex64
  | dataTypeOps | unaryOp | binaryOp | boolBinaryOp | boolUnaryOp | andOp | orOp | xorOp | nandOp
  | norOp | xnorOp | notOp
  | string | utf8String | utf8Char
  | temporal | date | time | timestamp | dateTime
  | literal | literalNone
  | literalBoolean
  | literalList | literalTuple | literalSet | literalDict
  | literalInt8 | literalInt16 | literalInt32 | literalInt64 | literalInt128 | literalUInt8
  | literalUInt16 | literalUInt32 | literalUInt64 | literalUInt128 | literalFloat16
  | literalFloat32 | literalFloat64 | literalComplex | literalComplex32 | literalComplex64
  | literalString | literalUTF8String | literalUTF8Char
  | literalDate | literalTime | literalTimestamp | literalDateTime
deriving DecidableEq, Repr

namespace Form

/-- The name of a form. -/
def name : Form → String
  | .place => "SourceLocation"
  | .node => "AST"
  | .nodeList => "ASTNodes"
  | .expr => "Expr"
  | .exprType => "ExprType"
  | .undefined => "Undefined"
  | .dataType => "DataType"
  | .operatorType => "OperatorType"
  | .statementType => "StatementType"
  | .parenthesizedExpr => "ParenthesizedExpr"
  | .block => "Block"
  | .variableDeclaration => "VariableDeclaration"
  | .inlineVariableDeclaration => "InlineVariableDeclaration"
  | .identifier => "Identifier"
  | .variableUse => "Variable"
  | .deleteStmt => "DeleteStmt"
  | .argument => "Argument"
  | .arguments => "Arguments"
  | .functionCall => "FunctionCall"
  | .functionPrototype => "FunctionPrototype"
  | .functionReturn => "FunctionReturn"
  | .functionDef => "FunctionDef"
  | .lambdaExpr => "LambdaExpr"
  | .functionAsyncDef => "FunctionAsyncDef"
  | .awaitExpr => "AwaitExpr"
  | .yieldExpr => "YieldExpr"
  | .yieldStmt => "YieldStmt"
  | .yieldFromExpr => "YieldFromExpr"
  | .classDeclStmt => "ClassDeclStmt"
  | .classDefStmt => "ClassDefStmt"
  | .enumDeclStmt => "EnumDeclStmt"
  | .structDeclStmt => "StructDeclStmt"
  | .structDefStmt => "StructDefStmt"
  | .comprehensionClause => "ComprehensionClause"
  | .comprehension => "Comprehension"
  | .listComprehension => "ListComprehension"
  | .setComprehension => "SetComprehension"
  | .generatorExpr => "GeneratorExpr"
  | .withItem => "WithItem"
  | .withStmt => "WithStmt"
  | .throwStmt => "ThrowStmt"
  | .catchHandlerStmt => "CatchHandlerStmt"
  | .exceptionHandlerStmt => "ExceptionHandlerStmt"
  | .finallyHandlerStmt => "FinallyHandlerStmt"
  | .ifStmt => "IfStmt"
  | .ifExpr => "IfExpr"
  | .forRangeLoopStmt => "ForRangeLoopStmt"
  | .forRangeLoopExpr => "ForRangeLoopExpr"
  | .forCountLoopStmt => "ForCountLoopStmt"
  | .forCountLoopExpr => "ForCountLoopExpr"
  | .asyncForRangeLoopStmt => "AsyncForRangeLoopStmt"
  | .asyncForRangeLoopExpr => "AsyncForRangeLoopExpr"
  | .breakStmt => "BreakStmt"
  | .continueStmt => "ContinueStmt"
  | .whileStmt => "WhileStmt"
  | .whileExpr => "WhileExpr"
  | .caseStmt => "CaseStmt"
  | .switchStmt => "SwitchStmt"
  | .gotoStmt => "GotoStmt"
  | .doWhileStmt => "DoWhileStmt"
  | .doWhileExpr => "DoWhileExpr"
  | .walrusOp => "WalrusOp"
  | .assignmentExpr => "AssignmentExpr"
  | .variableAssignment => "VariableAssignment"
  | .augAssign => "AugAssign"
  | .compareOp => "CompareOp"
  | .starred => "Starred"
  | .target => "Target"
  | .moduleRoot => "Module"
  | .package => "Package"
  | .program => "Program"
  | .aliasExpr => "AliasExpr"
  | .importStmt => "ImportStmt"
  | .importFromStmt => "ImportFromStmt"
  | .importExpr => "ImportExpr"
  | .importFromExpr => "ImportFromExpr"
  | .subscriptExpr => "SubscriptExpr"
  | .ellipsis => "Ellipsis"
  | .anyType => "AnyType"
  | .noneType => "NoneType"
  | .boolean => "Boolean"
  | .typeCastExpr => "TypeCastExpr"
  | .collectionType => "CollectionType"
  | .listType => "ListType"
  | .setType => "SetType"
  | .dictType => "DictType"
  | .tupleType => "TupleType"
  | .number => "Number"
  | .integer => "Integer"
  | .unsignedInteger => "UnsignedInteger"
  | .signedInteger => "SignedInteger"
  | .int8 => "Int8"
  | .int16 => "Int16"
  | .int32 => "Int32"
  | .int64 => "Int64"
  | .int128 => "Int128"
  | .uint8 => "UInt8"
  | .uint16 => "UInt16"
  | .uint32 => "UInt32"
  | .uint64 => "UInt64"
  | .uint128 => "UInt128"
  | .floating => "Floating"
  | .float16 => "Float16"
  | .float32 => "Float32"
  | .float64 => "Float64"
  | .complex => "Complex"
  | .complex32 => "Complex32"
  | .complex64 => "Complex64"
  | .dataTypeOps => "DataTypeOps"
  | .unaryOp => "UnaryOp"
  | .binaryOp => "BinaryOp"
  | .boolBinaryOp => "BoolBinaryOp"
  | .boolUnaryOp => "BoolUnaryOp"
  | .andOp => "AndOp"
  | .orOp => "OrOp"
  | .xorOp => "XorOp"
  | .nandOp => "NandOp"
  | .norOp => "NorOp"
  | .xnorOp => "XnorOp"
  | .notOp => "NotOp"
  | .string => "String"
  | .utf8String => "UTF8String"
  | .utf8Char => "UTF8Char"
  | .temporal => "Temporal"
  | .date => "Date"
  | .time => "Time"
  | .timestamp => "Timestamp"
  | .dateTime => "DateTime"
  | .literal => "Literal"
  | .literalNone => "LiteralNone"
  | .literalBoolean => "LiteralBoolean"
  | .literalList => "LiteralList"
  | .literalTuple => "LiteralTuple"
  | .literalSet => "LiteralSet"
  | .literalDict => "LiteralDict"
  | .literalInt8 => "LiteralInt8"
  | .literalInt16 => "LiteralInt16"
  | .literalInt32 => "LiteralInt32"
  | .literalInt64 => "LiteralInt64"
  | .literalInt128 => "LiteralInt128"
  | .literalUInt8 => "LiteralUInt8"
  | .literalUInt16 => "LiteralUInt16"
  | .literalUInt32 => "LiteralUInt32"
  | .literalUInt64 => "LiteralUInt64"
  | .literalUInt128 => "LiteralUInt128"
  | .literalFloat16 => "LiteralFloat16"
  | .literalFloat32 => "LiteralFloat32"
  | .literalFloat64 => "LiteralFloat64"
  | .literalComplex => "LiteralComplex"
  | .literalComplex32 => "LiteralComplex32"
  | .literalComplex64 => "LiteralComplex64"
  | .literalString => "LiteralString"
  | .literalUTF8String => "LiteralUTF8String"
  | .literalUTF8Char => "LiteralUTF8Char"
  | .literalDate => "LiteralDate"
  | .literalTime => "LiteralTime"
  | .literalTimestamp => "LiteralTimestamp"
  | .literalDateTime => "LiteralDateTime"

/-- The form that this one refines. -/
def parent : Form → Option Form
  | .place | .node | .withItem => none
  | .nodeList | .expr | .statementType => some .node
  | .exprType | .undefined | .inlineVariableDeclaration | .lambdaExpr | .awaitExpr | .yieldExpr
  | .yieldFromExpr | .comprehensionClause | .comprehension | .ifExpr | .forRangeLoopExpr
  | .forCountLoopExpr | .asyncForRangeLoopExpr | .whileExpr | .assignmentExpr | .starred | .target
  | .aliasExpr | .importExpr | .importFromExpr | .subscriptExpr | .ellipsis
  | .typeCastExpr => some .expr
  | .dataType => some .exprType
  | .operatorType | .parenthesizedExpr | .functionCall | .walrusOp | .augAssign | .compareOp
  | .anyType | .dataTypeOps => some .dataType
  | .block | .arguments | .package => some .nodeList
  | .variableDeclaration | .deleteStmt | .functionPrototype | .functionReturn | .functionDef
  | .yieldStmt | .classDeclStmt | .enumDeclStmt | .structDeclStmt | .withStmt | .throwStmt
  | .catchHandlerStmt | .exceptionHandlerStmt | .finallyHandlerStmt | .ifStmt | .forRangeLoopStmt
  | .forCountLoopStmt | .asyncForRangeLoopStmt | .breakStmt | .continueStmt | .whileStmt
  | .caseStmt | .switchStmt | .gotoStmt | .variableAssignment | .importStmt
  | .importFromStmt => some .statementType
  | .identifier | .unaryOp | .binaryOp | .literal => some .dataTypeOps
  | .variableUse => some .identifier
  | .argument => some .variableUse
  | .functionAsyncDef => some .functionDef
  | .classDefStmt => some .classDeclStmt
  | .structDefStmt => some .structDeclStmt
  | .listComprehension | .setComprehension | .generatorExpr => some .comprehension
  | .doWhileStmt => some .whileStmt
  | .doWhileExpr => some .whileExpr
  | .moduleRoot => some .block
  | .program => some .package
  | .noneType | .boolean | .collectionType | .number | .integer | .string | .utf8String | .utf8Char
  | .temporal => some .anyType
  | .listType | .setType | .dictType | .tupleType => some .collectionType
  | .unsignedInteger | .signedInteger => some .integer
  | .int8 | .int16 | .int32 | .int64 | .int128 => some .signedInteger
  | .uint8 | .uint16 | .uint32 | .uint64 | .uint128 => some .unsignedInteger
  | .floating | .complex => some .number
  | .float16 | .float32 | .float64 => some .floating
  | .complex32 | .complex64 => some .complex
  | .boolBinaryOp => some .binaryOp
  | .boolUnaryOp => some .unaryOp
  | .andOp | .orOp | .xorOp | .nandOp | .norOp | .xnorOp => some .boolBinaryOp
  | .notOp => some .boolUnaryOp
  | .date | .time | .timestamp | .dateTime => some .temporal
  | .literalNone | .literalBoolean | .literalList | .literalTuple | .literalSet | .literalDict
  | .literalInt8 | .literalInt16 | .literalInt32 | .literalInt64 | .literalInt128 | .literalUInt8
  | .literalUInt16 | .literalUInt32 | .literalUInt64 | .literalUInt128 | .literalFloat16
  | .literalFloat32 | .literalFloat64 | .literalComplex | .literalString | .literalDate
  | .literalTime | .literalTimestamp | .literalDateTime => some .literal
  | .literalComplex32 | .literalComplex64 => some .literalComplex
  | .literalUTF8String | .literalUTF8Char => some .literalString

/-- The dotted path of a form's family. -/
def family : Form → String
  | .place | .node | .nodeList | .expr | .exprType | .undefined | .dataType | .operatorType
  | .statementType | .parenthesizedExpr => "astx.base"
  | .block => "astx.blocks"
  | .variableDeclaration | .inlineVariableDeclaration | .identifier | .variableUse
  | .deleteStmt => "astx.data"
  | .argument | .arguments | .functionCall | .functionPrototype | .functionReturn | .functionDef
  | .lambdaExpr | .functionAsyncDef | .awaitExpr | .yieldExpr | .yieldStmt
  | .yieldFromExpr => "astx.callables"
  | .classDeclStmt | .classDefStmt | .enumDeclStmt | .structDeclStmt
  | .structDefStmt => "astx.classes"
  | .comprehensionClause | .comprehension | .listComprehension | .setComprehension
  | .generatorExpr => "astx.comprehensions"
  | .withItem | .withStmt => "astx.context_manager"
  | .throwStmt | .catchHandlerStmt | .exceptionHandlerStmt
  | .finallyHandlerStmt => "astx.exceptions"
  | .ifStmt | .ifExpr | .forRangeLoopStmt | .forRangeLoopExpr | .forCountLoopStmt
  | .forCountLoopExpr | .asyncForRangeLoopStmt | .asyncForRangeLoopExpr | .breakStmt
  | .continueStmt | .whileStmt | .whileExpr | .caseStmt | .switchStmt | .gotoStmt | .doWhileStmt
  | .doWhileExpr => "astx.flows"
  | .walrusOp | .assignmentExpr | .variableAssignment | .augAssign | .compareOp
  | .starred => "astx.operators"
  | .target | .moduleRoot | .package | .program | .aliasExpr | .importStmt | .importFromStmt
  | .importExpr | .importFromExpr => "astx.packages"
  | .subscriptExpr | .ellipsis => "astx.subscript"
  | .anyType | .noneType => "astx.types.base"
  | .boolean => "astx.types.boolean"
  | .typeCastExpr => "astx.types.casting"
  | .collectionType | .listType | .setType | .dictType | .tupleType => "astx.types.collections"
  | .number | .integer | .unsignedInteger | .signedInteger | .int8 | .int16 | .int32 | .int64
  | .int128 | .uint8 | .uint16 | .uint32 | .uint64 | .uint128 | .floating | .float16 | .float32
  | .float64 | .complex | .complex32 | .complex64 => "astx.types.numeric"
  | .dataTypeOps | .unaryOp | .binaryOp | .boolBinaryOp | .boolUnaryOp | .andOp | .orOp | .xorOp
  | .nandOp | .norOp | .xnorOp | .notOp => "astx.types.operators"
  | .string | .utf8String | .utf8Char => "astx.types.string"
  | .temporal | .date | .time | .timestamp | .dateTime => "astx.types.temporal"
  | .literal | .literalNone => "astx.literals.base"
  | .literalBoolean => "astx.literals.boolean"
  | .literalList | .literalTuple | .literalSet | .literalDict => "astx.literals.collections"
  | .literalInt8 | .literalInt16 | .literalInt32 | .literalInt64 | .literalInt128 | .literalUInt8
  | .literalUInt16 | .literalUInt32 | .literalUInt64 | .literalUInt128 | .literalFloat16
  | .literalFloat32 | .literalFloat64 | .literalComplex | .literalComplex32
  | .literalComplex64 => "astx.literals.numeric"
  | .literalString | .literalUTF8String | .literalUTF8Char => "astx.literals.string"
  | .literalDate | .literalTime | .literalTimestamp | .literalDateTime => "astx.literals.temporal"

/-- All forms, in the order of their declaration. -/
def all : List Form :=
  (List.range (Form.ctorIdx .literalDateTime + 1)).map ofNat

/-- The form with this name. -/
def ofName? (s : String) : Option Form :=
  all.find? fun f => f.name == s

/-- The full path of a form. -/
def path (f : Form) : String :=
  f.family ++ "." ++ f.name

end Form

end ProgramTree
