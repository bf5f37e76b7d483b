/-
What constructors expect, and what nodes then hold.

A constructor says of each argument what it should be: a text, a node of some form, a
list of such nodes. `Form.expects` is the table of these hints, and `Hint.meets` tells
whether a value is as a hint says. A node that its constructor has filled keeps most of
its arguments as they are, some of them gathered into a container, and gets some fields
besides; `Form.kept` lists what a reader of the node can rely on.

Containers grow after they were made, and nothing checks what is added to them but that
it is a node. So of what a container holds, and of the items of a list that may be the
list of a container, a reader can only rely on that (`Hint.loose`).
-/
import ProgramTree.Proofs.Assembly

namespace ProgramTree

namespace Store

/-- Whether a value is a node of a form, or of one that refines it. -/
def isForm (s : Store) (v : Value) (f : Form) : Bool :=
  (s.formOf? v).any fun g => g.isA f

/-- Whether a value is a node that has outlines. -/
def isOutlined (s : Store) (v : Value) : Bool :=
  s.isForm v .node || s.isForm v .withItem

/-- Whether a value stands for itself or refers to a cell. -/
def holds (s : Store) : Value → Bool
  | .ref a => a < s.cells.size
  | _ => true

/-- The cell that a value refers to. -/
def cellOf? (s : Store) : Value → Option Cell
  | .ref a => s.cell? a
  | _ => none

/-- Whether a value refers to a list, a tuple or a set of which all items pass a test. -/
def allItems (s : Store) (test : Value → Bool) (v : Value) : Bool :=
  ((s.cellOf? v).bind Look.sequence?).any fun xs => xs.all test

/-- Whether a value refers to a list of nodes. -/
def isListOfNodes (s : Store) (v : Value) : Bool :=
  match s.cellOf? v with
  | some (.list xs) => xs.all (s.isForm · .node)
  | _ => false

/-- What a container keeps its nodes in. -/
def listOf? (s : Store) (v : Value) : Option Value :=
  (s.nodeOf? v).bind fun n => n.get? .nodes

end Store

/-- The list of the body that stands for the missing body of a class. -/
def Shared.classNodes : Address := 12

/-- What a value is expected to be. -/
inductive Hint
  | absent
  | text
  | bool
  | int
  | float
  | member (e : Enumeration)
  | node (f : Form)
  /-- A node of a form, not of one that refines it. -/
  | exactly (f : Form)
  | either (g h : Hint)
  /-- A list, a tuple or a set of nodes of a form that have outlines, or a container. -/
  | items (f : Form)
  /-- The same, of nodes of any form that have outlines. -/
  | series
  /-- A list, a tuple or a set of nodes of a form. -/
  | members (f : Form)
  /-- A dictionary from nodes of a form to such nodes. -/
  | entries (f : Form)
  /-- A list, a tuple or a set of texts. -/
  | words
  /-- A list of nodes. -/
  | nodes
  /-- A container to which nodes may be added. The body that stands for the missing body
  of a class is none: each class without a body gets a copy of it. -/
  | growing
  /-- A tuple of two numbers. -/
  | pair
  | anything
deriving DecidableEq, Repr

namespace Hint

/-- What may be missing. -/
def maybe (h : Hint) : Hint :=
  .either .absent h

/-- Whether a value is a number. -/
def isNumber : Value → Bool
  | .bool _ | .int _ | .float _ => true
  | _ => false

/-- Whether a value is a text. -/
def isText : Value → Bool
  | .text _ => true
  | _ => false

/-- Whether a value is as expected. -/
def meets (s : Store) : Hint → Value → Bool
  | .absent, v => v = .none
  | .text, v => isText v
  | .bool, v => match v with
    | .bool _ => true
    | _ => false
  | .int, v => match v with
    | .int _ | .bool _ => true
    | _ => false
  | .float, v => isNumber v
  | .member e, v => match v with
    | .member m => m.enumeration = e
    | _ => false
  | .node f, v => s.isForm v f
  | .exactly f, v => s.formOf? v = some f
  | .either g h, v => g.meets s v || h.meets s v
  | .items f, v =>
    s.isForm v .nodeList || s.allItems (fun x => s.isForm x f && s.isOutlined x) v
  | .series, v => s.isForm v .nodeList || s.allItems s.isOutlined v
  | .members f, v => s.allItems (s.isForm · f) v
  | .entries f, v => match s.cellOf? v with
    | some (.dict es) => es.all fun e => s.isForm e.1 f && s.isForm e.2 f
    | _ => false
  | .words, v => s.allItems isText v
  | .nodes, v => s.isListOfNodes v
  | .growing, v =>
    s.isForm v .nodeList &&
      (s.listOf? v).any fun w => w ≠ .ref Shared.classNodes && s.isListOfNodes w
  | .pair, v => match s.cellOf? v with
    | some (.tuple [x, y]) => isNumber x && isNumber y
    | _ => false
  | .anything, v => s.holds v

/-- What stays true of a value while lists grow. -/
def loose : Hint → Hint
  | .items f => if f.isA .node then .items .node else .series
  | .members _ | .words => .anything
  | .either g h => .either g.loose h.loose
  | h => h

end Hint

/-! ## The table of hints -/

namespace Form

open Hint

/-- What the constructor of a form's own expects of an argument. -/
def ownHint? : Form → Field → Option Hint
  | .place, .line | .place, .col => some .int
  | .node, .loc => some (.node .place)
  | .node, .parent => some (maybe .growing)
  | .nodeList, .name => some .text
  | .parenthesizedExpr, .value | .yieldFromExpr, .value | .starred, .value
  | .variableDeclaration, .value | .inlineVariableDeclaration, .value | .switchStmt, .value
  | .assignmentExpr, .value | .variableAssignment, .value | .subscriptExpr, .value =>
    some (.node .expr)
  | .awaitExpr, .value | .yieldExpr, .value | .yieldStmt, .value => some (maybe (.node .expr))
  | .functionReturn, .value | .augAssign, .value => some (.node .dataType)
  | .deleteStmt, .value => some (.items .identifier)
  | .identifier, .name | .variableDeclaration, .name | .inlineVariableDeclaration, .name
  | .functionPrototype, .name | .classDeclStmt, .name | .enumDeclStmt, .name
  | .structDeclStmt, .name | .variableAssignment, .name | .aliasExpr, .name => some .text
  | .variableDeclaration, .type | .inlineVariableDeclaration, .type | .variableUse, .type
  | .functionCall, .type => some (.node .dataType)
  | .variableDeclaration, .mutability | .inlineVariableDeclaration, .mutability
  | .argument, .mutability => some (.member .mutability)
  | .variableDeclaration, .visibility | .inlineVariableDeclaration, .visibility
  | .functionPrototype, .visibility | .classDeclStmt, .visibility | .enumDeclStmt, .visibility
  | .structDeclStmt, .visibility => some (.member .visibility)
  | .variableDeclaration, .scope | .inlineVariableDeclaration, .scope
  | .functionPrototype, .scope => some (.member .scoping)
  | .argument, .defaultValue => some (.node .expr)
  | .functionCall, .fn => some (.either .text (.node .functionDef))
  | .functionCall, .args | .compareOp, .comparators => some (.items .dataType)
  | .functionPrototype, .args | .lambdaExpr, .params => some (.node .arguments)
  | .functionPrototype, .returnType => some (.node .anyType)
  | .functionDef, .prototype => some (.node .functionPrototype)
  | .functionDef, .body | .classDefStmt, .body | .withStmt, .body | .catchHandlerStmt, .body
  | .exceptionHandlerStmt, .body | .finallyHandlerStmt, .body | .forRangeLoopStmt, .body
  | .forRangeLoopExpr, .body | .asyncForRangeLoopStmt, .body | .asyncForRangeLoopExpr, .body
  | .forCountLoopStmt, .body | .forCountLoopExpr, .body | .whileStmt, .body | .whileExpr, .body
  | .caseStmt, .body => some (.node .block)
  | .lambdaExpr, .body => some (.node .expr)
  | .classDeclStmt, .bases | .classDeclStmt, .decorators | .structDeclStmt, .decorators
  | .assignmentExpr, .targets => some (.items .expr)
  | .classDeclStmt, .isAbstract | .comprehensionClause, .isAsync | .caseStmt, .defaultValue =>
    some .bool
  | .classDeclStmt, .metaclass | .throwStmt, .exception | .caseStmt, .condition =>
    some (maybe (.node .expr))
  | .classDeclStmt, .attributes | .enumDeclStmt, .attributes | .structDeclStmt, .attributes =>
    some (.items .variableDeclaration)
  | .classDeclStmt, .methods | .structDeclStmt, .methods => some (.items .functionDef)
  | .comprehensionClause, .target | .comprehensionClause, .iterable | .comprehension, .element =>
    some (.node .expr)
  | .comprehensionClause, .conditions => some (maybe (.items .expr))
  | .comprehension, .generators => some (.items .comprehensionClause)
  | .withItem, .contextExpr => some (.node .expr)
  | .withItem, .instanceName | .catchHandlerStmt, .name => some (maybe (.node .identifier))
  | .withStmt, .items => some (.items .withItem)
  | .catchHandlerStmt, .types => some (maybe (.items .identifier))
  | .exceptionHandlerStmt, .handlers => some (.items .catchHandlerStmt)
  | .exceptionHandlerStmt, .finallyHandler => some (maybe (.node .finallyHandlerStmt))
  | .ifStmt, .condition | .ifExpr, .condition | .forCountLoopStmt, .condition
  | .forCountLoopExpr, .condition | .whileStmt, .condition | .whileExpr, .condition
  | .forCountLoopStmt, .update | .forCountLoopExpr, .update => some (.node .expr)
  | .ifStmt, .thenBranch | .ifExpr, .thenBranch => some (.node .block)
  | .ifStmt, .elseBranch | .ifExpr, .elseBranch => some (maybe (.node .block))
  | .forRangeLoopStmt, .loopVariable | .forRangeLoopExpr, .loopVariable
  | .asyncForRangeLoopStmt, .loopVariable | .asyncForRangeLoopExpr, .loopVariable
  | .forCountLoopStmt, .initializer | .forCountLoopExpr, .initializer =>
    some (.node .inlineVariableDeclaration)
  | .forRangeLoopStmt, .start | .forRangeLoopExpr, .start | .forRangeLoopStmt, .finish
  | .forRangeLoopExpr, .finish | .forRangeLoopStmt, .step | .forRangeLoopExpr, .step
  | .asyncForRangeLoopStmt, .finish | .asyncForRangeLoopExpr, .finish => some (.node .expr)
  | .asyncForRangeLoopStmt, .start | .asyncForRangeLoopExpr, .start
  | .asyncForRangeLoopStmt, .step | .asyncForRangeLoopExpr, .step => some (maybe (.node .expr))
  | .switchStmt, .cases => some (.items .caseStmt)
  | .gotoStmt, .label | .augAssign, .target => some (.node .identifier)
  | .walrusOp, .lhs => some (.node .variableUse)
  | .walrusOp, .rhs | .compareOp, .left | .unaryOp, .operand | .binaryOp, .lhs
  | .binaryOp, .rhs => some (.node .dataType)
  | .augAssign, .opCode | .unaryOp, .opCode | .binaryOp, .opCode => some .text
  | .compareOp, .ops => some .words
  | .target, .datalayout | .target, .triple | .aliasExpr, .asname => some .text
  | .package, .modules => some (.items .moduleRoot)
  | .package, .packages => some (.items .package)
  | .program, .target => some (.node .target)
  | .importStmt, .names | .importExpr, .names | .importFromStmt, .names
  | .importFromExpr, .names => some (.items .aliasExpr)
  | .importFromStmt, .moduleName | .importFromExpr, .moduleName => some .text
  | .importFromStmt, .level | .importFromExpr, .level => some .int
  | .subscriptExpr, .index | .subscriptExpr, .lower | .subscriptExpr, .upper
  | .subscriptExpr, .step => some (maybe (.node .expr))
  | .typeCastExpr, .expr => some (.node .expr)
  | .typeCastExpr, .targetType => some (.node .dataType)
  | .listType, .elementTypes | .tupleType, .elementTypes => some (.items .exprType)
  | .setType, .elementType | .dictType, .keyType | .dictType, .valueType =>
    some (.node .exprType)
  | .literalBoolean, .value => some .bool
  | .literalInt8, .value | .literalInt16, .value | .literalInt32, .value | .literalInt64, .value
  | .literalInt128, .value | .literalUInt8, .value | .literalUInt16, .value
  | .literalUInt32, .value | .literalUInt64, .value | .literalUInt128, .value => some .int
  | .literalFloat16, .value | .literalFloat32, .value | .literalFloat64, .value
  | .literalComplex, .real | .literalComplex, .imag => some .float
  | .literalString, .value | .literalDate, .value | .literalTime, .value
  | .literalTimestamp, .value | .literalDateTime, .value => some .text
  | .literalList, .elements | .literalTuple, .elements | .literalSet, .elements =>
    some (.members .literal)
  | .literalDict, .elements => some (.entries .literal)
  | _, _ => none

/-- What the constructor of a form expects of an argument. -/
def expects (f : Form) (field : Field) : Option Hint :=
  f.ancestors.findSome? fun g => g.ownHint? field

/-! ## What nodes hold -/

/-- What is left of a hint when an argument was kept. -/
def left (k : Keeping) (h : Hint) : Option Hint :=
  match k with
  | .plain => some h.loose
  | .gathered | .gatheredOrNew | .gatheredOrAway => some (.node .nodeList)
  | .gatheredIfTrue => some (maybe (.node .nodeList))
  | .elsewhere => none

/-- What nodes of a form and of those that refine it hold besides their arguments. -/
def ownFields : Form → List (Field × Hint)
  | .node => [(.loc, .node .place), (.ref, .text), (.comment, .text), (.kind, .member .kind)]
  | .nodeList => [(.name, .text), (.nodes, .nodes)]
  | .dataType => [(.name, .text)]
  | .functionCall => [(.fn, .text)]
  | .compareOp => [(.ops, .anything), (.comparators, .items .node)]
  | .classDefStmt => [(.body, .node .block)]
  | .package => [(.modules, .items .node), (.packages, .items .node)]
  | .program => [(.target, .node .target)]
  | .unaryOp | .binaryOp => [(.opCode, .text)]
  | .literal => [(.type, .either (.node .anyType) (.exactly .exprType))]
  | .literalNone => [(.value, .absent)]
  | .literalComplex => [(.value, .pair)]
  | .subscriptExpr =>
    [(.index, .node .expr), (.lower, .node .expr), (.upper, .node .expr), (.step, .node .expr)]
  | _ => []

/-- The forms whose nodes get no fields but their arguments. -/
def isBare (f : Form) : Bool :=
  [.listType, .tupleType, .setType, .dictType].contains f

/-- The form of the type that the constructor of a form makes for its node and does not
replace by an argument, if it makes one. -/
def madeType? : Form → Option Form
  | .identifier => some .anyType
  | .unaryOp | .boolUnaryOp | .notOp | .literal | .literalComplex => some .exprType
  | .literalUTF8String => some .utf8String
  | .literalUTF8Char => some .utf8Char
  | f => Build.literalType? f

/-- What a node of a form holds once its constructor has filled it. -/
def kept (f : Form) : List (Field × Hint) :=
  (f.fillOrder.filterMap fun p =>
    ((f.expects p.field).bind (left p.keeping)).map fun h => (p.field, h)) ++
  (if f.isBare then [] else f.ancestors.flatMap ownFields) ++
  f.madeType?.toList.map fun g => (.type, .exactly g)

/-- What is kept stays as it is while lists grow and cursors move. -/
theorem kept_stays (f : Form) : f.kept.all (fun e => e.2.loose = e.2 ∧ e.1 ≠ .position) := by
  cases f <;> decide

end Form

end ProgramTree
