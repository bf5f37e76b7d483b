/-
What constructors take.

Each form is built by its own constructor or by that of the nearest form that it
refines. A constructor has parameters, some with a default; an argument goes into
the field of the same name, some of them gathered into a container on the way.
-/
import ProgramTree.Build

namespace ProgramTree

/-- How an argument gets into its field. -/
inductive Keeping
  /-- As it is. -/
  | plain
  /-- A container as it is, the items of anything else in a new container. -/
  | gathered
  /-- The same for what counts as true; nothing else is kept. -/
  | gatheredIfTrue
  /-- The same for what has items; a new container for anything else. -/
  | gatheredOrNew
  /-- The same for what has items; for anything else the field stays away. -/
  | gatheredOrAway
  /-- Not in a field of its own. -/
  | elsewhere
deriving DecidableEq, Repr

/-- The form of the nodes for which the container in a field is made, if it is made for
one form. -/
def Field.itemForm? : Field → Option Form
  | .decorators => some .expr
  | .attributes => some .variableDeclaration
  | .methods => some .functionDef
  | .cases => some .caseStmt
  | .types => some .identifier
  | .handlers => some .catchHandlerStmt
  | .generators => some .comprehensionClause
  | _ => none

/-- A parameter of a constructor. -/
structure Param where
  field : Field
  defaultValue : Option Value
  keeping : Keeping
deriving Repr

namespace Param

/-- A parameter without a default. -/
def need (f : Field) : Param :=
  ⟨f, none, .plain⟩

/-- A parameter with a default. -/
def opt (f : Field) (v : Value) : Param :=
  ⟨f, some v, .plain⟩

/-- The same parameter, kept in another way. -/
def by_ (p : Param) (k : Keeping) : Param :=
  { p with keeping := k }

/-- The place of a node. -/
def located : List Param :=
  [(opt .loc (.ref Shared.noPlace)).by_ .elsewhere]

/-- The place and the parent of a node. -/
def placed : List Param :=
  located ++ [(opt .parent .none).by_ .elsewhere]

/-- A list of nodes that may be missing. -/
def nodes (f : Field) : Param :=
  (opt f (.ref Shared.noItems)).by_ .gathered

/-- A visibility, that of everyone by default. -/
def visibility : Param :=
  opt .visibility (.member (.visibility .everyone))

/-- A mutability, fixed by default. -/
def mutability : Param :=
  opt .mutability (.member (.mutability .fixed))

/-- The parts of a class. -/
def classParts : List Param :=
  [visibility, opt .isAbstract (.bool false), opt .metaclass .none, nodes .attributes,
   nodes .methods]

end Param

namespace Form

open Param

/-- The parameters of the constructor that a form has of its own. -/
def ownParams? : Form → Option (List Param)
  | .place => some [need .line, need .col]
  | .node | .dataType | .breakStmt | .continueStmt | .ellipsis => some placed
  | .nodeList => some ((opt .name (.text "entry")).by_ .elsewhere :: placed)
  | .parenthesizedExpr | .deleteStmt | .functionReturn | .awaitExpr | .yieldExpr | .yieldFromExpr
  | .starred => some (need .value :: placed)
  | .variableDeclaration | .inlineVariableDeclaration =>
    some ([need .name, need .type, mutability, visibility,
      opt .scope (.member (.scoping .here)), opt .value (.ref Shared.noInitialValue)] ++ placed)
  | .identifier => some (need .name :: placed)
  | .variableUse => some ([need .name, opt .type (.ref Shared.variableType)] ++ placed)
  | .argument =>
    some ([need .name, need .type, mutability, opt .defaultValue (.ref Shared.noDefault)]
      ++ placed)
  | .functionCall =>
    some ([need .fn, need .args, opt .type (.ref Shared.callType)] ++ placed)
  | .functionPrototype =>
    some ([need .name, need .args, need .returnType,
      opt .scope (.member (.scoping .everywhere)), visibility] ++ placed)
  | .functionDef | .functionAsyncDef => some ([need .prototype, need .body] ++ placed)
  | .lambdaExpr => some ([need .body, opt .params (.ref Shared.noParams)] ++ placed)
  | .yieldStmt => some (opt .value .none :: placed)
  | .classDeclStmt =>
    some ([need .name, nodes .bases, nodes .decorators] ++ classParts ++ placed)
  | .classDefStmt =>
    some ([need .name, nodes .bases, nodes .decorators,
      (opt .body (.ref Shared.classBody)).by_ .elsewhere] ++ classParts ++ placed)
  | .enumDeclStmt => some ([need .name, nodes .attributes, visibility] ++ placed)
  | .structDeclStmt | .structDefStmt =>
    some ([need .name, nodes .attributes, nodes .decorators, nodes .methods, visibility]
      ++ placed)
  | .comprehensionClause =>
    some ([need .target, need .iterable, (opt .conditions .none).by_ .gatheredOrNew,
      opt .isAsync (.bool false)] ++ placed)
  | .comprehension => some ((need .generators).by_ .gatheredOrAway :: placed)
  | .listComprehension | .setComprehension =>
    some ([need .element, (nodes .generators).by_ .gatheredOrAway] ++ placed)
  | .generatorExpr =>
    some ([need .element, (need .generators).by_ .gatheredOrAway] ++ placed)
  | .withItem => some [need .contextExpr, opt .instanceName .none]
  | .withStmt => some ([need .items, need .body] ++ placed)
  | .throwStmt => some (opt .exception .none :: placed)
  | .catchHandlerStmt =>
    some ([need .body, opt .name .none, (opt .types .none).by_ .gatheredIfTrue] ++ placed)
  | .exceptionHandlerStmt =>
    some ([need .body, (need .handlers).by_ .gathered, opt .finallyHandler .none] ++ placed)
  | .finallyHandlerStmt => some (need .body :: placed)
  | .ifStmt | .ifExpr =>
    some ([need .condition, need .thenBranch, opt .elseBranch .none] ++ placed)
  | .forRangeLoopStmt | .forRangeLoopExpr | .asyncForRangeLoopStmt | .asyncForRangeLoopExpr =>
    some ([need .loopVariable, need .start, need .finish, need .step, need .body] ++ placed)
  | .forCountLoopStmt | .forCountLoopExpr =>
    some ([need .initializer, need .condition, need .update, need .body] ++ placed)
  | .whileStmt | .whileExpr | .doWhileStmt | .doWhileExpr =>
    some ([need .condition, need .body] ++ placed)
  | .caseStmt =>
    some ([need .body, opt .condition .none, opt .defaultValue (.bool false)] ++ placed)
  | .switchStmt => some ([need .value, (need .cases).by_ .gathered] ++ placed)
  | .gotoStmt => some (need .label :: placed)
  | .walrusOp => some ([need .lhs, need .rhs] ++ located)
  | .assignmentExpr => some ([(need .targets).by_ .gathered, need .value] ++ placed)
  | .variableAssignment => some ([need .name, need .value] ++ placed)
  | .augAssign => some ([need .target, need .opCode, need .value] ++ located)
  | .compareOp =>
    some ([need .left, (need .ops).by_ .elsewhere, (need .comparators).by_ .elsewhere] ++ located)
  | .target => some [need .datalayout, need .triple]
  | .moduleRoot => some ((opt .name (.text "main")).by_ .elsewhere :: located)
  | .package =>
    some ([(opt .name (.text "main")).by_ .elsewhere,
      (opt .modules (.ref Shared.noItems)).by_ .elsewhere,
      (opt .packages (.ref Shared.noItems)).by_ .elsewhere] ++ located)
  | .program =>
    some ([(opt .name (.text "main")).by_ .elsewhere,
      (opt .target (.ref Shared.noTarget)).by_ .elsewhere,
      (opt .modules (.ref Shared.noItems)).by_ .elsewhere,
      (opt .packages (.ref Shared.noItems)).by_ .elsewhere] ++ located)
  | .aliasExpr => some ([need .name, opt .asname (.text "")] ++ placed)
  | .importStmt | .importExpr => some (need .names :: placed)
  | .importFromStmt | .importFromExpr =>
    some ([need .names, opt .moduleName (.text ""), opt .level (.int 0)] ++ placed)
  | .subscriptExpr =>
    some ([need .value, opt .index .none, opt .lower .none, opt .upper .none, opt .step .none]
      ++ placed)
  | .typeCastExpr => some ([need .expr, need .targetType] ++ placed)
  | .listType | .tupleType => some [need .elementTypes]
  | .setType => some [need .elementType]
  | .dictType => some [need .keyType, need .valueType]
  | .unaryOp | .boolUnaryOp => some ([need .opCode, need .operand] ++ placed)
  | .binaryOp | .boolBinaryOp => some ([need .opCode, need .lhs, need .rhs] ++ placed)
  | .andOp | .orOp | .xorOp | .nandOp | .norOp | .xnorOp =>
    some ([need .lhs, need .rhs] ++ placed)
  | .notOp => some (need .operand :: placed)
  | .literalNone => some located
  | .literalBoolean | .literalInt8 | .literalInt16 | .literalInt32 | .literalInt64 | .literalInt128
  | .literalUInt8 | .literalUInt16 | .literalUInt32 | .literalUInt64 | .literalUInt128
  | .literalFloat16 | .literalFloat32 | .literalFloat64 | .literalString | .literalUTF8String
  | .literalUTF8Char | .literalDate | .literalTime | .literalTimestamp | .literalDateTime =>
    some (need .value :: located)
  | .literalList | .literalTuple | .literalSet | .literalDict =>
    some ((need .elements).by_ .elsewhere :: located)
  | .literalComplex | .literalComplex32 | .literalComplex64 =>
    some ([(need .real).by_ .elsewhere, (need .imag).by_ .elsewhere] ++ located)
  | _ => none

/-- The fields in the order in which a form's own constructor fills them, where that is
not the order of the parameters. -/
def ownOrder? : Form → Option (List Field)
  | .variableDeclaration | .inlineVariableDeclaration =>
    some [.mutability, .scope, .visibility, .name, .type, .value]
  | .lambdaExpr => some [.params, .body]
  | .classDeclStmt | .classDefStmt =>
    some [.name, .bases, .decorators, .attributes, .methods, .visibility, .isAbstract, .metaclass]
  | .comprehensionClause => some [.target, .iterable, .isAsync, .conditions]
  | .listComprehension | .setComprehension | .generatorExpr => some [.generators, .element]
  | .caseStmt => some [.condition, .body, .defaultValue]
  | .importFromStmt => some [.moduleName, .names, .level]
  | _ => none

/-- The form whose constructor builds a form, and its parameters. -/
def signature (f : Form) : Form × List Param :=
  (f.ancestors.findSome? fun g => g.ownParams?.map fun ps => (g, ps)).getD (f, [])

/-- The parameters in the order in which their fields are filled. -/
def fillOrder (f : Form) : List Param :=
  let (owner, params) := f.signature
  match owner.ownOrder? with
  | some fields => fields.filterMap fun g => params.find? fun p => p.field = g
  | none => params

/-- The kind that a form's own constructor gives. -/
def ownKind? : Form → Option Kind
  | .parenthesizedExpr => some .parenthesizedExpr
  | .variableDeclaration | .inlineVariableDeclaration => some .varDecl
  | .deleteStmt => some .deleteStmt
  | .argument => some .argument
  | .functionCall => some .call
  | .functionPrototype => some .prototype
  | .functionReturn => some .returnStmt
  | .functionDef => some .functionDef
  | .lambdaExpr => some .lambdaExpr
  | .functionAsyncDef => some .functionAsyncDef
  | .awaitExpr => some .awaitExpr
  | .yieldExpr => some .yieldExpr
  | .yieldStmt => some .yieldStmt
  | .yieldFromExpr => some .yieldFromExpr
  | .classDeclStmt => some .classDeclStmt
  | .classDefStmt => some .classDefStmt
  | .enumDeclStmt => some .enumDeclStmt
  | .structDeclStmt => some .structDeclStmt
  | .structDefStmt => some .structDefStmt
  | .comprehensionClause => some .comprehension
  | .setComprehension => some .setComprehension
  | .generatorExpr => some .generatorExpr
  | .withStmt => some .withStmt
  | .throwStmt => some .throwStmt
  | .catchHandlerStmt => some .catchHandlerStmt
  | .exceptionHandlerStmt => some .exceptionHandlerStmt
  | .finallyHandlerStmt => some .finallyHandlerStmt
  | .ifStmt => some .ifStmt
  | .ifExpr => some .ifExpr
  | .forRangeLoopStmt => some .forRangeLoopStmt
  | .forRangeLoopExpr => some .forRangeLoopExpr
  | .forCountLoopStmt => some .forCountLoopStmt
  | .forCountLoopExpr => some .forCountLoopExpr
  | .asyncForRangeLoopStmt => some .asyncRangeLoopStmt
  | .asyncForRangeLoopExpr => some .asyncRangeLoopExpr
  | .breakStmt => some .breakStmt
  | .continueStmt => some .continueStmt
  | .whileStmt => some .whileStmt
  | .whileExpr => some .whileExpr
  | .caseStmt => some .caseStmt
  | .switchStmt => some .switchStmt
  | .gotoStmt => some .gotoStmt
  | .doWhileStmt => some .doWhileStmt
  | .doWhileExpr => some .doWhileExpr
  | .walrusOp => some .walrusOp
  | .assignmentExpr => some .assignmentExpr
  | .variableAssignment => some .variableAssignment
  | .augAssign => some .augmentedAssign
  | .compareOp => some .compareOp
  | .starred => some .starred
  | .moduleRoot => some .moduleRoot
  | .aliasExpr => some .aliasExpr
  | .importStmt => some .importStmt
  | .importFromStmt => some .importFromStmt
  | .importExpr => some .importExpr
  | .importFromExpr => some .importFromExpr
  | .subscriptExpr => some .subscriptExpr
  | .ellipsis => some .ellipsis
  | .typeCastExpr => some .typeCastExpr
  | .unaryOp => some .unaryOp
  | .binaryOp => some .binaryOp
  | _ => none

/-- The kind of a node of a form when it is built. -/
def builtKind (f : Form) : Kind :=
  (f.ancestors.findSome? ownKind?).getD .generic

end Form

/-- Arguments by parameter. -/
abbrev Arguments := List (Field × Value)

namespace Arguments

/-- The argument for a parameter. -/
def get (args : Arguments) (f : Field) : Value :=
  (args.lookup f).getD .none

/-- Arguments for all parameters of a form's constructor: those given, and
defaults. Unknown names are refused before missing ones. -/
def fill (form : Form) (given : List (Field × Value)) : Except Fault Arguments :=
  let (owner, params) := form.signature
  match given.find? fun e => !params.any fun p => p.field = e.1 with
  | some e => .error (.unexpectedArgument owner.name e.1.key)
  | none =>
    let chosen := fun p : Param =>
      match given.reverse.lookup p.field with
      | some v => some v
      | none => p.defaultValue
    let missing := params.filter fun p => (chosen p).isNone
    if missing.isEmpty then .ok (params.map fun p => (p.field, (chosen p).getD .none))
    else .error (.missingArguments owner.name (missing.map fun p => p.field.key))

end Arguments

end ProgramTree
