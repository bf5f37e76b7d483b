/-
The kind of a node: a name and a number by which tools tell nodes apart without
looking at their form. Several kinds have no form of their own, and several
forms share one kind.
-/

namespace ProgramTree

/-- The kinds, grouped by hundreds of their numbers. -/
inductive Kind
  | generic | moduleRoot | parenthesizedExpr
  | argument | arguments | variableUse | varDecl | varsDecl | variableAssignment | varsAssign
  | deleteStmt
  | unaryOp | binaryOp | walrusOp | assignmentExpr | augmentedAssign | compareOp | starred
  | prototype | functionDef | call | returnStmt | lambdaExpr | functionAsyncDef | awaitExpr
  | yieldExpr | yieldFromExpr | comprehension | listComprehension | setComprehension | yieldStmt
  | ifStmt | forCountLoopStmt | forRangeLoopStmt | whileStmt | forRangeLoopExpr | forCountLoopExpr
  | whileExpr | ifExpr | caseStmt | switchStmt | gotoStmt | withStmt | asyncRangeLoopStmt
  | asyncRangeLoopExpr | doWhileStmt | doWhileExpr | generatorExpr | breakStmt | continueStmt
  | nullDT | booleanDT | int8DT | uint8DT | int16DT | uint16DT | int32DT | uint32DT | int64DT
  | uint64DT | floatDT | doubleDT | binaryDT | stringDT | fixedSizeBinaryDT | date32DT | date64DT
  | timestampDT | time32DT | time64DT | decimal128DT | decimal256DT | utf8CharDT | utf8StringDT
  | timeDT | dateDT | dateTimeDT
  | importStmt | importFromStmt | aliasExpr
  | importExpr | importFromExpr | typeCastExpr
  | classDefStmt | classDeclStmt | enumDeclStmt | structDeclStmt | structDefStmt
  | subscriptExpr | ellipsis
  | throwStmt | catchHandlerStmt | exceptionHandlerStmt | finallyHandlerStmt
  | andOp | orOp | xorOp | nandOp | norOp | xnorOp | notOp
deriving DecidableEq, Repr

namespace Kind

/-- The name and the number of a kind. -/
def entry : Kind → String × Int
  | .generic => ("GenericKind", -100)
  | .moduleRoot => ("ModuleKind", -101)
  | .parenthesizedExpr => ("ParenthesizedExprKind", -102)
  | .argument => ("ArgumentKind", -200)
  | .arguments => ("ArgumentsKind", -201)
  | .variableUse => ("VariableKind", -202)
  | .varDecl => ("VarDeclKind", -203)
  | .varsDecl => ("VarsDeclKind", -204)
  | .variableAssignment => ("VariableAssignmentKind", -205)
  | .varsAssign => ("VarsAssignKind", -206)
  | .deleteStmt => ("DeleteStmtKind", -207)
  | .unaryOp => ("UnaryOpKind", -300)
  | .binaryOp => ("BinaryOpKind", -301)
  | .walrusOp => ("WalrusOpKind", -302)
  | .assignmentExpr => ("AssignmentExprKind", -303)
  | .augmentedAssign => ("AugmentedAssignKind", -304)
  | .compareOp => ("CompareOpKind", -305)
  | .starred => ("StarredKind", -306)
  | .prototype => ("PrototypeKind", -400)
  | .functionDef => ("FunctionDefKind", -401)
  | .call => ("CallKind", -402)
  | .returnStmt => ("ReturnKind", -403)
  | .lambdaExpr => ("LambdaExprKind", -404)
  | .functionAsyncDef => ("FunctionAsyncDefKind", -405)
  | .awaitExpr => ("AwaitExprKind", -406)
  | .yieldExpr => ("YieldExprKind", -407)
  | .yieldFromExpr => ("YieldFromExprKind", -408)
  | .comprehension => ("ComprehensionKind", -409)
  | .listComprehension => ("ListComprehensionKind", -410)
  | .setComprehension => ("SetComprehensionKind", -411)
  | .yieldStmt => ("YieldStmtKind", -412)
  | .ifStmt => ("IfStmtKind", -500)
  | .forCountLoopStmt => ("ForCountLoopStmtKind", -501)
  | .forRangeLoopStmt => ("ForRangeLoopStmtKind", -502)
  | .whileStmt => ("WhileStmtKind", -503)
  | .forRangeLoopExpr => ("ForRangeLoopExprKind", -504)
  | .forCountLoopExpr => ("ForCountLoopExprKind", -505)
  | .whileExpr => ("WhileExprKind", -506)
  | .ifExpr => ("IfExprKind", -507)
  | .caseStmt => ("CaseStmtKind", -508)
  | .switchStmt => ("SwitchStmtKind", -509)
  | .gotoStmt => ("GotoStmtKind", -511)
  | .withStmt => ("WithStmtKind", -512)
  | .asyncRangeLoopStmt => ("AsyncRangeLoopStmtKind", -513)
  | .asyncRangeLoopExpr => ("AsyncRangeLoopExprKind", -514)
  | .doWhileStmt => ("DoWhileStmtKind", -515)
  | .doWhileExpr => ("DoWhileExprKind", -516)
  | .generatorExpr => ("GeneratorExprKind", -517)
  | .breakStmt => ("BreakStmtKind", -518)
  | .continueStmt => ("ContinueStmtKind", -519)
  | .nullDT => ("NullDTKind", -600)
  | .booleanDT => ("BooleanDTKind", -601)
  | .int8DT => ("Int8DTKind", -602)
  | .uint8DT => ("UInt8DTKind", -603)
  | .int16DT => ("Int16DTKind", -604)
  | .uint16DT => ("UInt16DTKind", -605)
  | .int32DT => ("Int32DTKind", -606)
  | .uint32DT => ("UInt32DTKind", -607)
  | .int64DT => ("Int64DTKind", -608)
  | .uint64DT => ("UInt64DTKind", -609)
  | .floatDT => ("FloatDTKind", -610)
  | .doubleDT => ("DoubleDTKind", -611)
  | .binaryDT => ("BinaryDTKind", -612)
  | .stringDT => ("StringDTKind", -613)
  | .fixedSizeBinaryDT => ("FixedSizeBinaryDTKind", -614)
  | .date32DT => ("Date32DTKind", -615)
  | .date64DT => ("Date64DTKind", -616)
  | .timestampDT => ("TimestampDTKind", -617)
  | .time32DT => ("Time32DTKind", -618)
  | .time64DT => ("Time64DTKind", -619)
  | .decimal128DT => ("Decimal128DTKind", -620)
  | .decimal256DT => ("Decimal256DTKind", -621)
  | .utf8CharDT => ("UTF8CharDTKind", -622)
  | .utf8StringDT => ("UTF8StringDTKind", -623)
  | .timeDT => ("TimeDTKind", -624)
  | .dateDT => ("DateDTKind", -625)
  | .dateTimeDT => ("DateTimeDTKind", -626)
  | .importStmt => ("ImportStmtKind", -700)
  | .importFromStmt => ("ImportFromStmtKind", -701)
  | .aliasExpr => ("AliasExprKind", -702)
  | .importExpr => ("ImportExprKind", -800)
  | .importFromExpr => ("ImportFromExprKind", -801)
  | .typeCastExpr => ("TypeCastExprKind", -809)
  | .classDefStmt => ("ClassDefStmtKind", -900)
  | .classDeclStmt => ("ClassDeclStmtKind", -901)
  | .enumDeclStmt => ("EnumDeclStmtKind", -902)
  | .structDeclStmt => ("StructDeclStmtKind", -903)
  | .structDefStmt => ("StructDefStmtKind", -904)
  | .subscriptExpr => ("SubscriptExprKind", -1000)
  | .ellipsis => ("EllipsisKind", -1001)
  | .throwStmt => ("ThrowStmtKind", -1100)
  | .catchHandlerStmt => ("CatchHandlerStmtKind", -1101)
  | .exceptionHandlerStmt => ("ExceptionHandlerStmtKind", -1102)
  | .finallyHandlerStmt => ("FinallyHandlerStmtKind", -1103)
  | .andOp => ("AndOpKind", -1200)
  | .orOp => ("OrOpKind", -1201)
  | .xorOp => ("XorOpKind", -1202)
  | .nandOp => ("NandOpKind", -1203)
  | .norOp => ("NorOpKind", -1204)
  | .xnorOp => ("XnorOpKind", -1205)
  | .notOp => ("NotOpKind", -1206)

/-- All kinds, in the order of their numbers. -/
def all : List Kind :=
  (List.range (Kind.ctorIdx .notOp + 1)).map ofNat

/-- The name of a kind. -/
def name (k : Kind) : String :=
  k.entry.1

/-- The number of a kind. -/
def code (k : Kind) : Int :=
  k.entry.2

/-- The kind with this number. -/
def ofCode? (n : Int) : Option Kind :=
  all.find? fun k => k.code == n

/-- The kind with this name. -/
def ofName? (s : String) : Option Kind :=
  all.find? fun k => k.name == s

end Kind

end ProgramTree
