/-
Scenarios that build many nodes and report on their labels and outlines.
-/
import ProgramTree.Sample

namespace ProgramTree.Sample

open Build

/-! ## Literals and types -/

/-- The forms of integer literals. -/
def integerForms : List Form :=
  [.literalInt8, .literalInt16, .literalInt32, .literalInt64, .literalInt128, .literalUInt8,
   .literalUInt16, .literalUInt32, .literalUInt64, .literalUInt128]

/-- The forms of literals with a fraction. -/
def floatForms : List Form :=
  [.literalFloat16, .literalFloat32, .literalFloat64]

/-- The form at a place, counted around a list of forms. -/
def around (forms : List Form) (i : Nat) : Form :=
  forms.getD (i % forms.length) .node

/-- A complex literal. -/
def complex (form : Form) (real imag : Int) : Build Value :=
  node form [(.real, .float (Double.ofInt real)), (.imag, .float (Double.ofInt imag))]

/-- A literal of each of the other forms. -/
def otherLiterals : List (Build Value) :=
  [literal .literalBoolean (.bool true), literal .literalString (.text "hello"),
   literal .literalUTF8String (.text "world"), literal .literalUTF8Char (.text "c"),
   literal .literalDate (.text "2024-01-01"), literal .literalTime (.text "12:00:00"),
   literal .literalTimestamp (.text "2024-01-01T12:00:00"),
   literal .literalDateTime (.text "2024-01-01T12:00:00"), node .literalNone [],
   complex .literalComplex 1 2, complex .literalComplex32 1 2, complex .literalComplex64 3 4]

/-- A collection literal of some elements. -/
def collection (form : Form) (elements : Build Value) : Build Value := do
  node form [(.elements, ← elements)]

/-- A literal text. -/
def word : Build Value :=
  literal .literalString (.text "a")

/-- A collection literal of each form. -/
def collections : List (Build Value) :=
  [collection .literalList (listOf [number 1, number 2]),
   collection .literalTuple (do
    let n ← number 1
    newTuple [n, ← word]),
   collection .literalSet (do newSet [← number 1]),
   collection .literalDict (do
    let n ← number 1
    newDictFrom (← putEntry [] (n, ← word)))]

/-- Literals of all forms. -/
def literals (size : Nat) : Build (List Answer) := do
  let numbers ← each size fun i => reports (fun v => return [← label v])
    [literal (around integerForms i) (.int i),
     literal (around floatForms i) (.float (Double.ofInt i))]
  let others ← reports (fun v => return [← label v, ← firstKey false v, ← firstKey true v])
    otherLiterals
  let collected ← reports (fun v => do
    return [.text (← Look.typeName v), ← label (← Look.field v .type)]) collections
  return numbers ++ others ++ collected

/-- The forms of scalar types. -/
def typeForms : List Form :=
  [.int8, .int16, .int32, .int64, .uint8, .uint16, .uint32, .uint64, .uint128, .float16,
   .float32, .float64, .complex, .complex32, .complex64, .boolean, .string, .utf8Char,
   .utf8String, .date, .time, .dateTime, .timestamp, .noneType, .integer, .signedInteger,
   .unsignedInteger, .floating, .number]

/-- The labels of the collection types over a type. -/
def collectionTypes (type : Value) : Build (List Answer) :=
  reports (fun v => return [← label v])
    [do node .listType [(.elementTypes, ← newList [type])],
     do node .tupleType [(.elementTypes, ← newList [type, type])],
     node .setType [(.elementType, type)],
     node .dictType [(.keyType, type), (.valueType, type)]]

/-- Types of all forms, and the collection types over each. -/
def types (size : Nat) : Build (List Answer) := do
  let made ← each size fun i => do
    let type ← node (around typeForms i) []
    return (← full type) ++ (← collectionTypes type)
  let shared : Value := .ref Shared.int32
  return made ++ [← label shared, .bool (← Look.isA shared .int32)]

/-! ## Operators -/

/-- All overloaded operators on two nodes. -/
def overloaded (l r : Value) : List (Build Value) :=
  let signs := ["+", "-", "*", "/", "//", "%", "**", "==", "!=", "<", "<=", ">", ">="]
  let binary := fun sign => match Overload.ofSign? sign with
    | some op => applyBinary op l r
    | none => pure .none
  signs.map binary ++ [applyUnary .negate l, applyUnary .plus l, applyUnary .invert l]
    ++ ["&", "|", "^"].map binary

/-- A logical operator on two numbers. -/
def logical (form : Form) : Build Value := do
  let l ← number 1
  node form [(.lhs, l), (.rhs, ← number 2)]

/-- A node with an operand. -/
def onNumber (form : Form) (given : List (Field × Value)) (n : Int) : Build Value := do
  node form (given ++ [(.operand, ← number n)])

/-- Overloaded operators, of which one is reported for each size, and all logical ones. -/
def overloads (size : Nat) : Build (List Answer) := do
  let made ← each size fun i => do
    let l ← number i
    let nodes ← (overloaded l (← number (i + 1))).mapM id
    let chosen := nodes.getD (i % nodes.length) .none
    return [.int nodes.length, ← label chosen,
      .text (← Look.outline false chosen).typeName]
  let keyed ← reports (fun v => return [← label v, ← firstKey false v])
    ([Form.andOp, .orOp, .xorOp, .nandOp, .norOp, .xnorOp].map logical
      ++ [onNumber .notOp [] 1, onNumber .unaryOp [(.opCode, .text "-")] 3])
  let sum ← combined "+" (literal .literalInt16 (.int 1)) (literal .literalInt64 (.int 2))
  return made ++ keyed ++ [← label sum]

/-- A comparison with several operators. -/
def comparison (left : Build Value) (ops : List String) (right : List (Build Value)) :
    Build Value := do
  let l ← left
  let signs ← newList (ops.map .text)
  node .compareOp [(.left, l), (.ops, signs), (.comparators, ← listOf right)]

/-- A subscript of a variable. -/
def subscript (bounds : List (Field × Int)) : Build Value := do
  let array ← named "arr"
  let given ← bounds.mapM fun b => do return (b.1, ← number b.2)
  node .subscriptExpr ((.value, array) :: given)

/-- A node for each form of operators and declarations. -/
def operatorNodes (i : Nat) : List (Build Value) :=
  let name := "v" ++ toString i
  [do
    let v ← named name
    node .walrusOp [(.lhs, v), (.rhs, ← number i)],
   do
    let targets ← listOf [named name]
    node .assignmentExpr [(.targets, targets), (.value, ← number i)],
   assignment name (number i),
   do
    let target ← identifier "x"
    node .augAssign [(.target, target), (.opCode, .text "+="), (.value, ← number 1)],
   comparison (number i) ["<", "=="] [number 1, number 2],
   holding .starred (number i), subscript [(.index, i)],
   subscript [(.lower, 0), (.upper, 10), (.step, 2)], node .ellipsis [],
   holding .deleteStmt (listOf [identifier "x", identifier "y"]),
   initialized .variableDeclaration "x" 1, initialized .inlineVariableDeclaration "y" 1,
   holding .parenthesizedExpr (number i), node .undefined [],
   do
    let value ← number i
    node .typeCastExpr [(.expr, value), (.targetType, ← node .int64 [])]]

/-- Operators and declarations of all forms, and two comparisons that cannot be built. -/
def operators (size : Nat) : Build (List Answer) := do
  let made ← each size fun i => reports brief (operatorNodes i)
  let missing ← failing category (comparison (number 1) ["<"] [])
  let unknown ← failing category (comparison (number 1) ["?"] [number 2])
  return made ++ [missing, unknown]

/-! ## Flow of control -/

/-- A loop that counts. -/
def countLoop (form : Form) (i : Nat) : Build Value := do
  let start ← initialized .inlineVariableDeclaration "i" 0
  let condition ← less i (i + 1)
  let update ← number 1
  node form [(.initializer, start), (.condition, condition), (.update, update),
    (.body, ← block [number 1])]

/-- A branch on a condition. -/
def branch (form : Form) (condition : Build Value) : Build Value := do
  let c ← condition
  let thenBlock ← block [number 1]
  node form [(.condition, c), (.thenBranch, thenBlock), (.elseBranch, ← block [number 2])]

/-- A case of a switch. -/
def oneCase : Build Value :=
  conditional .caseStmt (number 1) [number 1]

/-- The case for all other values. -/
def otherwise : Build Value := do
  node .caseStmt [(.defaultValue, .bool true), (.body, ← block [number 2])]

/-- A node for each form of control flow. -/
def flowNodes (i : Nat) : List (Build Value) :=
  let condition := less i (i + 1)
  [branch .ifStmt condition, branch .ifExpr condition]
    ++ [Form.whileStmt, .whileExpr, .doWhileStmt, .doWhileExpr].map
      (fun form => conditional form condition [number 1])
    ++ [Form.forRangeLoopStmt, .forRangeLoopExpr].map (fun form => rangeLoop form [number 1])
    ++ [Form.forCountLoopStmt, .forCountLoopExpr].map (fun form => countLoop form i)
    ++ [Form.asyncForRangeLoopStmt, .asyncForRangeLoopExpr].map
      (fun form => rangeLoop form [number 1])
    ++ [oneCase, otherwise,
      do
        let value ← named "x"
        node .switchStmt [(.value, value), (.cases, ← listOf [oneCase, otherwise])],
      do node .gotoStmt [(.label, ← identifier "label")]]

/-- Control flow of all forms, and the two cases that cannot be built. -/
def flows (size : Nat) : Build (List Answer) := do
  let made ← each size fun i => reports full (flowNodes i)
  let missing ← failing (beginning 10) (do node .caseStmt [(.body, ← block [number 1])])
  let unwanted ← failing (beginning 10) (do
    let condition ← number 1
    node .caseStmt [(.condition, condition), (.defaultValue, .bool true),
      (.body, ← block [number 1])])
  return made ++ [missing, unwanted]

/-! ## Functions and classes -/

/-- The nodes around functions. -/
def functionNodes (i : Nat) : Build (List Answer) := do
  let name := "f" ++ toString i
  let body := [holding .functionReturn (number 1)]
  let f ← function .functionDef name ["x", "y"] body
  let one ← reports brief [pure f, function .functionAsyncDef name ["x", "y"] body,
    do
      let a ← number 1
      Build.call f [a, ← number 2],
    do node .functionCall [(.fn, .text "g"), (.args, ← listOf [number 1])],
    do
      let params ← arguments ["x"]
      node .lambdaExpr [(.params, params), (.body, ← number 1)],
    holding .yieldExpr (number 1), holding .yieldStmt (number 1), node .yieldStmt [],
    holding .yieldFromExpr (number 1), holding .awaitExpr (number 1)]
  let proto ← prototype name ["x"]
  return one ++ [← failing category (entryCount false proto)]

/-- A visibility as a value. -/
def visible (v : Visibility) : Field × Value :=
  (.visibility, .member (.visibility v))

/-- The nodes for classes and other declared types. -/
def classNodes (i : Nat) : List (Build Value) :=
  let name := fun (start : String) => (Field.name, Value.text (start ++ toString i))
  let field := declaration .variableDeclaration "x"
  [do
    let bases ← listOf [named "Base"]
    let decorators ← listOf [named "deco"]
    node .classDeclStmt [name "C", (.bases, bases), (.decorators, decorators),
      (.isAbstract, .bool true), (.metaclass, ← named "Meta")],
   do
    let bases ← listOf [named "Base"]
    let decorators ← listOf [named "deco"]
    node .classDefStmt [name "D", (.bases, bases), (.decorators, decorators),
      visible .owner, (.body, ← block [field])],
   node .classDefStmt [name "E"],
   do node .enumDeclStmt [name "En", visible .family, (.attributes, ← listOf [field])],
   do
    let fields ← listOf [field]
    node .structDeclStmt [name "S", visible .owner, (.attributes, fields),
      (.decorators, ← listOf [named "d"])],
   do
    let fields ← listOf [field]
    node .structDefStmt [name "SD", (.attributes, fields),
      (.decorators, ← listOf [named "d"])]]

/-- Functions and classes of all forms. -/
def definitions (size : Nat) : Build (List Answer) :=
  each size fun i => do return (← functionNodes i) ++ (← reports full (classNodes i))

/-! ## Modules and packages -/

/-- A name in an import. -/
def aliased (name asname : String) : Build Value :=
  node .aliasExpr [(.name, .text name), (.asname, .text asname)]

/-- An import of names from a module at a level. -/
def importFrom (form : Form) (names : List (Build Value)) (source : String) (level : Int) :
    Build Value := do
  node form [(.names, ← listOf names), (.moduleName, .text source), (.level, .int level)]

/-- The statements of a module. -/
def moduleNodes (i : Nat) : List (Build Value) :=
  let package := "pkg" ++ toString i
  let renamed := aliased package ("p" ++ toString i)
  let both := fun (form : Form) => do
    node form [(.names, ← listOf [renamed, aliased package ""])]
  [both .importStmt, importFrom .importFromStmt [renamed] "os" 1, both .importExpr,
   importFrom .importFromExpr [renamed] "os" 2, assignment "x" (number 1)]

/-- Modules with imports, then a program with a package, and imports without a module. -/
def packages (size : Nat) : Build (List Answer) := do
  let made ← each size fun i => do
    let root ← node .moduleRoot [(.name, .text ("mod" ++ toString i))]
    let nodes ← (moduleNodes i).mapM id
    nodes.forM (append root)
    let inner ← reports full (nodes.map pure)
    return (← brief root) ++ [.int (← Look.length root)] ++ inner
  let root ← node .moduleRoot [(.name, .text "inner")]
  let package ← node .package [(.name, .text "inner"), (.modules, ← newList [root])]
  let program ← node .program [(.name, .text "prog"), (.packages, ← newList [package])]
  let sizes := [← entryCount false package, ← entryCount false program,
    ← entryCount true program]
  let bare ← reports (fun v => return [← label v])
    ([Form.importFromStmt, .importFromExpr].map fun form =>
      importFrom form [aliased "x" ""] "" 1)
  return made ++ [← label package, ← label program] ++ sizes ++ bare

/-! ## Exceptions and contexts -/

/-- A handler of exceptions. -/
def handler : Build Value := do
  let body ← block [number 1]
  let name ← identifier "e"
  node .catchHandlerStmt [(.body, body), (.name, name), (.types, ← listOf [identifier "Err"])]

/-- What is done in the end. -/
def finally_ : Build Value := do
  node .finallyHandlerStmt [(.body, ← block [number 1])]

/-- The nodes around exceptions. -/
def exceptionNodes : List (Build Value) :=
  [do node .throwStmt [(.exception, ← named "Err")], node .throwStmt [], handler, finally_,
   do
    let body ← block [number 1]
    let handlers ← listOf [handler]
    node .exceptionHandlerStmt [(.body, body), (.handlers, handlers),
      (.finallyHandler, ← finally_)]]

/-- Exceptions and contexts of all forms. -/
def exceptions (size : Nat) : Build (List Answer) :=
  each size fun _ => do
    let thrown ← reports full exceptionNodes
    let context ← named "ctx"
    let first ← node .withItem [(.contextExpr, context), (.instanceName, ← identifier "f")]
    let second ← node .withItem [(.contextExpr, ← named "ctx2")]
    let items ← newList [first, second]
    let body ← block [number 1]
    let statement ← node .withStmt [(.items, items), (.body, body)]
    return thrown ++ [← label first, ← label second] ++ (← full statement)
      ++ [.int (← Look.length body)]

/-! ## Comprehensions -/

/-- A clause of a comprehension. -/
def clause (isAsync : Bool) (conditions : List (Build Value)) : Build Value := do
  let target ← named "x"
  let iterable ← named "xs"
  let conditions ← listOf conditions
  node .comprehensionClause [(.target, target), (.iterable, iterable),
    (.conditions, conditions), (.isAsync, .bool isAsync)]

/-- A comprehension of a form. -/
def comprehension (form : Form) : Build Value := do
  let element ← named "x"
  node form [(.element, element), (.generators, ← listOf [clause false []])]

/-- Comprehensions of all forms; every other first clause is asynchronous. -/
def comprehensions (size : Nat) : Build (List Answer) :=
  each size fun i => reports full
    ([clause (i % 2 == 1) [less 1 2], clause false []]
      ++ [Form.listComprehension, .setComprehension, .generatorExpr].map comprehension)

end ProgramTree.Sample
