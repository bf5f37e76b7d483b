/-
Scenarios that turn trees into drawings and into source texts.
-/
import ProgramTree.Catalog
import ProgramTree.Drawing.Tool
import ProgramTree.Sample.Trees

namespace ProgramTree.Sample

open Build

/-! ## Drawings -/

/-- A function that returns a sum. -/
def sumFunction (i : Nat) : Build Value := do
  let type ← node .int32 []
  let args ← arguments ["a" ++ toString i]
  let proto ← node .functionPrototype
    [(.name, .text ("f" ++ toString i)), (.args, args), (.returnType, type)]
  let body ← block [holding .functionReturn (combined "+" (number 1) (number 2))]
  node .functionDef [(.prototype, proto), (.body, body)]

/-- A module of nodes. -/
def moduleOf (items : List (Build Value)) : Build Value := do
  let root ← node .moduleRoot [(.name, .text "mod")]
  items.forM fun item => do append root (← item)
  return root

/-- The length of a text. -/
def lengthOf (s : String) : Answer :=
  .int s.length

/-- The lengths of the drawings of an outline in both dialects. -/
def drawingLengths (direction : Direction) (outline : Doc) : Build (List Answer) :=
  [Drawing.Dialect.declared, .bare].mapM fun dialect => do
    return lengthOf (← Look.ofOutcome (Drawing.draw dialect direction.word outline))

/-- A tool that prints what it is given. -/
def echo (outline : Doc) : Except Fault String := do
  let tool : Drawing.Tool := ⟨["mermaid-ascii"], 0, "", ""⟩
  let call ← tool.prepare {} outline
  Drawing.Tool.answer { tool with output := call.input } call.input

/-- A module of functions, drawn in all ways. -/
def drawings (size : Nat) : Build (List Answer) := do
  let root ← moduleOf ((List.range size).map sumFunction)
  let outline ← Look.outline false root
  let lengths ← [Direction.down, .right, .down, .right].mapM fun d => drawingLengths d outline
  let echoed ← Look.ofOutcome (echo outline)
  let refused ← failing category (Look.ofOutcome (Drawing.draw .declared "" outline))
  let first ← Look.item root 0
  let type ← Look.field (← Look.field first .prototype) .returnType
  return lengths.flatten
    ++ [lengthOf echoed, .text (Drawing.escaped "he\"llo"), refused,
      .int (← Look.length root), ← label first, .text (← Look.typeName type),
      .bool Look.plainDisplay.inNotebook, .text Catalog.version]

/-! ## Source texts -/

/-- A branch without an alternative. -/
def guarded : Build Value := do
  let condition ← combined "<" (named "x") (number 1)
  node .ifStmt [(.condition, condition), (.thenBranch, ← block [assignment "z" (number 1)])]

/-- A function with branches and a loop. -/
def longFunction (i : Nat) : Build Value :=
  function .functionDef ("f" ++ toString i) ["x", "y"]
    [assignment "z" (combined "+" (named "x") (named "y")), guarded,
     rangeLoop .forRangeLoopStmt [assignment "z" (number 1)], guarded,
     holding .functionReturn (number 1)]

/-- Statements that stand in a module after its functions. -/
def moduleTail : List (Build Value) :=
  let name := fun (s : String) => (Field.name, Value.text s)
  let field := fun (s : String) => listOf [declaration .variableDeclaration s]
  let one := block [assignment "z" (number 1)]
  [do node .importStmt [(.names, ← listOf [aliased "os" "o"])],
   importFrom .importFromStmt [aliased "path" ""] "os" 0,
   do node .classDefStmt [name "C", (.body, ← one)],
   do node .enumDeclStmt [name "E", (.attributes, ← field "A")],
   do node .structDeclStmt [name "S", (.attributes, ← field "x")],
   do node .structDefStmt [name "SD", (.attributes, ← field "x")],
   holding .deleteStmt (listOf [identifier "z"]),
   do
    let body ← one
    let handled ← one
    let error ← identifier "e"
    let types ← listOf [identifier "ValueError"]
    let catching ← node .catchHandlerStmt [(.body, handled), (.name, error), (.types, types)]
    let handlers ← newList [catching]
    let last ← node .finallyHandlerStmt [(.body, ← block [])]
    node .exceptionHandlerStmt [(.body, body), (.handlers, handlers), (.finallyHandler, last)]]

/-- Nodes that convert to values and names. -/
def valueNodes : List (Build Value) :=
  [number 1, literal .literalUInt8 (.int 1), literal .literalFloat32 (.float (Double.ofInt 1)),
   literal .literalBoolean (.bool true), word, literal .literalUTF8Char (.text "c"),
   literal .literalUTF8String (.text "a"), node .literalNone [], complex .literalComplex32 1 2,
   complex .literalComplex64 1 2, literal .literalInt128 (.int 1),
   literal .literalDate (.text "2024-01-01"),
   literal .literalDateTime (.text "2024-01-01T12:00:00"),
   literal .literalTime (.text "12:00:00"),
   literal .literalTimestamp (.text "2024-01-01T12:00:00")]
    ++ collections
    ++ [Form.int32, .uint32, .float32, .complex32, .utf8String, .date, .dataType].map
      (fun form => node form [])
    ++ [node .ellipsis []]

/-- Nodes that convert to expressions with parts. -/
def expressionNodes : List (Build Value) :=
  [Form.andOp, .orOp, .xorOp, .nandOp, .norOp, .xnorOp].map logical
    ++ [onNumber .notOp [] 1, onNumber .unaryOp [(.opCode, .text "-")] 1,
      combined "@" (number 1) (number 2),
      do
        let v ← named "x"
        node .walrusOp [(.lhs, v), (.rhs, ← number 1)],
      holding .awaitExpr (named "x"), holding .yieldExpr (named "x"),
      holding .yieldFromExpr (named "x"), holding .parenthesizedExpr (number 1),
      holding .starred (named "x"),
      do node .functionCall [(.fn, .text "g"), (.args, ← listOf [number 1])],
      do
        let params ← arguments ["x"]
        node .lambdaExpr [(.params, params), (.body, ← number 1)],
      subscript [(.index, 0)], subscript [(.lower, 0), (.upper, 10), (.step, 2)]]

/-- Nodes that convert to statements without a block. -/
def plainStatements : List (Build Value) :=
  [do
    let targets ← listOf [named "x"]
    node .assignmentExpr [(.targets, targets), (.value, ← number 1)],
   do node .importExpr [(.names, ← listOf [aliased "os" "", aliased "sys" ""])],
   initialized .inlineVariableDeclaration "x" 1,
   importFrom .importFromExpr [aliased "path" ""] "os" 0, finally_,
   do node .throwStmt [(.exception,
      ← node .functionCall [(.fn, .text "g"), (.args, ← listOf [number 1])])],
   node .throwStmt [], named "x", clause false [less 1 2]]

/-- A loop that counts up to the right side of a comparison. -/
def boundedLoop : Build Value := do
  let start ← initialized .inlineVariableDeclaration "i" 0
  let condition ← comparison (named "i") ["<"] [number 10]
  let update ← number 1
  node .forCountLoopStmt [(.initializer, start), (.condition, condition), (.update, update),
    (.body, ← block [number 1])]

/-- Nodes that convert to comprehensions, loops and definitions. -/
def compoundNodes : List (Build Value) :=
  let condition := less 1 2
  [Form.listComprehension, .setComprehension, .generatorExpr].map comprehension
    ++ [branch .ifExpr condition]
    ++ [Form.forRangeLoopExpr, .asyncForRangeLoopExpr, .forRangeLoopStmt].map
      (fun form => rangeLoop form [number 1])
    ++ [boundedLoop]
    ++ [Form.doWhileStmt, .whileExpr, .doWhileExpr].map
      (fun form => conditional form condition [number 1])
    ++ [do
        let value ← named "x"
        node .switchStmt [(.value, value), (.cases, ← listOf [oneCase, otherwise])],
      function .functionAsyncDef "f" ["x"] [number 1], prototype "f" [], number 1, word]

/-- The class of the term that a node converts to. -/
def termClass (v : Value) : Build (List Answer) := do
  return [.text (← Look.term v).className]

/-- A module of long functions, its source text, and conversions of all sorts of nodes. -/
def conversions (size : Nat) : Build (List Answer) := do
  let root ← moduleOf ((List.range size).map longFunction ++ moduleTail)
  let written ← Look.ofOutcome (← Look.outline false root).written
  let inner ← reports brief ((← Look.plainItems (← Look.field root .nodes)).map pure)
  let start := Target.Margin.start
  let sources := [← Look.source start root, ← Look.source start.wider root]
  let classes ← reports termClass
    (valueNodes ++ expressionNodes ++ plainStatements ++ compoundNodes)
  return List.replicate 6 (lengthOf written) ++ inner ++ sources.map .text ++ classes

/-! ## The pages of the reference -/

/-- How many labels stand beside the pages. -/
def variableCount : Nat := 200

/-- Variables, and the name under which the pages are made. -/
def pages : Build (List Answer) := do
  let labels ← each variableCount fun i => do return [← label (← named ("v" ++ toString i))]
  return labels ++ [.text "_gen_ref_nav"]

end ProgramTree.Sample
