/-
Outlines: a node as a document.

An outline is a dictionary with one key, which tells what the node is, over its
content: the outlines of its parts. A full outline puts beside the content the
node's metadata; a simplified one is the content alone, and some keys then carry
the node's number, so that equal nodes beside each other stay apart.
-/
import ProgramTree.Describe.Label
import ProgramTree.Doc.Text

namespace ProgramTree.Outline

open Look

/-- How a node is outlined, simplified or not, given the descriptions of smaller
values. -/
abbrev Rule := Describe → Bool → Value → Look Doc

/-! ## Parts of outlines -/

/-- Place, comment, reference and kind of a node. -/
def metadata (d : Describe) (v : Value) : Look Doc := do
  let line ← d.doc (← field (← field v .loc) .line)
  let col ← d.doc (← field (← field v .loc) .col)
  let comment ← d.doc (← field v .comment)
  let ref ← d.doc (← field v .ref)
  let kind ← d.doc (← field (← field v .kind) .value)
  let loc := Doc.record [("line", line), ("col", col)]
  return .record [("loc", loc), ("comment", comment), ("ref", ref), ("kind", kind)]

/-- A content under its key, with the metadata unless simplified. -/
def prepare (d : Describe) (simplified : Bool) (v : Value) (key : String) (content : Doc) :
    Look Doc := do
  if simplified then return .single key content
  else return .single key (.record [("content", content), ("metadata", ← metadata d v)])

/-- The number of a node. -/
def number (v : Value) : Look String := do
  return toString (((← node? v).map fun n => n.number).getD 0)

/-- A key that carries the number when simplified. -/
def numbered (simplified : Bool) (v : Value) (key : String) : Look String := do
  if simplified then return key ++ "[" ++ (← number v) ++ "]" else return key

/-- A label that carries the number when simplified. -/
def hashed (simplified : Bool) (v : Value) (key : String) : Look String := do
  if simplified then return key ++ "#" ++ (← number v) else return key

/-- The label of a node itself. -/
def label (d : Describe) (v : Value) : Look String := do
  match ← node? v with
  | some n => Label.ofNode d n v
  | none => d.text v

/-- An entry with the outline of a field. -/
def part (d : Describe) (simplified : Bool) (v : Value) (key : String) (f : Field) :
    Look (String × Doc) := do
  return (key, ← d.fieldOutline simplified v f)

/-- The same for several fields, in order. -/
def parts (d : Describe) (simplified : Bool) (v : Value) :
    List (String × Field) → Look (List (String × Doc))
  | [] => pure []
  | (key, f) :: rest => do
    return (← part d simplified v key f) :: (← parts d simplified v rest)

/-- An entry with the outline of a field, if the field counts as true. -/
def partIfTrue (d : Describe) (simplified : Bool) (v : Value) (key : String) (f : Field) :
    Look (List (String × Doc)) := do
  if ← truthy (← field v f) then return [← part d simplified v key f] else return []

/-- The same for several fields, in order. -/
def partsIfTrue (d : Describe) (simplified : Bool) (v : Value) :
    List (String × Field) → Look (List (String × Doc))
  | [] => pure []
  | (key, f) :: rest => do
    return (← partIfTrue d simplified v key f) ++ (← partsIfTrue d simplified v rest)

/-- An entry with the outline of a field, empty without a value. -/
def partOrEmpty (d : Describe) (simplified : Bool) (v : Value) (key : String) (f : Field) :
    Look (String × Doc) := do
  match ← field v f with
  | .none => return (key, .record [])
  | w => return (key, ← d.outline simplified w)

/-- The outline of a field, spread over the outline around it. -/
def spread (d : Describe) (simplified : Bool) (v : Value) (f : Field) :
    Look (List (String × Doc)) := do
  ofOutcome (← d.fieldOutline simplified v f).entries

/-- The outlines of the items of a list. -/
def listed (d : Describe) (simplified : Bool) (v : Value) : Look Doc := do
  return .list (← forEach v (d.outline simplified))

/-- Docs under keys that count up. -/
def countedFrom (key : Nat → String) : Nat → List Doc → List (String × Doc)
  | _, [] => []
  | i, x :: rest => (key i, x) :: countedFrom key (i + 1) rest

/-! ## Containers, types and data -/

/-- The outlines of the nodes of a container under a key. -/
def container (key : Describe → Value → Look String) : Rule := fun d simplified v => do
  let nodes ← listed d simplified (← field v .nodes)
  prepare d simplified v (← key d v) nodes

/-- A block by its name and number. -/
def blockKey (d : Describe) (v : Value) : Look String := do
  return "BLOCK[" ++ (← d.fieldText v .name) ++ "-" ++ (← number v) ++ "]"

/-- A module by its name. -/
def moduleKey (d : Describe) (v : Value) : Look String := do
  return "MODULE[" ++ (← d.fieldText v .name) ++ "]"

/-- A type that is nothing but its form. -/
def exprType : Rule := fun _ _ v => do
  return .single "Type" (.text (← Label.formName v))

/-- What is not defined. -/
def undefined : Rule := fun d simplified v =>
  prepare d simplified v "UNDEFINED" (.text "UNDEFINED")

/-- A data type by its form, over its name. -/
def dataType : Rule := fun d simplified v => do
  let key := "DATA-TYPE[" ++ (← Label.formName v) ++ "]"
  prepare d simplified v key (← d.doc (← field v .name))

/-- A fixed key over the outline of a field. -/
def under (key : String) (f : Field) : Rule := fun d simplified v => do
  prepare d simplified v key (← d.fieldOutline simplified v f)

/-- The label over the outline of a field. -/
def labelUnder (f : Field) : Rule := fun d simplified v => do
  prepare d simplified v (← label d v) (← d.fieldOutline simplified v f)

/-- A fixed key over the outline of a field, empty without a value. -/
def underOrEmpty (key : String) (f : Field) : Rule := fun d simplified v => do
  prepare d simplified v key (← partOrEmpty d simplified v key f).2

/-- A fixed key over entries with the outlines of fields. -/
def headed (key : String) (fields : List (String × Field)) : Rule := fun d simplified v => do
  prepare d simplified v key (.record (← parts d simplified v fields))

/-- A fixed key over nothing. -/
def bare (key : String) : Rule := fun d simplified v =>
  prepare d simplified v key (.record [])

/-- The label over nothing. -/
def bareLabel : Rule := fun d simplified v => do
  prepare d simplified v (← label d v) (.record [])

/-- An identifier by form and name, over its name. -/
def identifier : Rule := fun d simplified v => do
  let form := (← Label.formName v).map Char.toUpper
  let key := form ++ "[" ++ (← d.fieldText v .name) ++ "]"
  prepare d simplified v key (← d.doc (← field v .name))

/-- The targets of a deletion. -/
def delete : Rule := fun d simplified v => do
  let targets ← forEach (← field v .value) (d.outline simplified)
  prepare d simplified v "DELETE"
    (.record (countedFrom (fun i => "target_" ++ toString i) 0 targets))

/-! ## Literals -/

/-- A literal by its type and value, over the value. -/
def literal : Rule := fun d simplified v => do
  let type ← d.fieldText v .type
  let key := "Literal[" ++ type ++ "]: " ++ (← d.fieldText v .value)
  prepare d simplified v key (← d.doc (← field v .value))

/-- A literal by a fixed word and its value, over the value. -/
def worded (word : String) : Rule := fun d simplified v => do
  let key := word ++ ": " ++ (← d.fieldText v .value)
  prepare d simplified v key (← d.doc (← field v .value))

/-- A complex number by its form and value, over its parts. -/
def complex : Rule := fun d simplified v => do
  let key := (← Label.formName v) ++ ": " ++ (← d.fieldText v .value)
  let real ← d.doc (← item (← field v .value) 0)
  let imag ← d.doc (← item (← field v .value) 1)
  prepare d simplified v key (.record [("real", real), ("imag", imag)])

/-! ## Operators -/

/-- A unary operator over its operand. -/
def unary : Rule := fun d simplified v => do
  let key := "UNARY[" ++ (← d.fieldText v .opCode) ++ "]"
  prepare d simplified v key (← d.fieldOutline simplified v .operand)

/-- A binary operator over its operands. -/
def binary : Rule := fun d simplified v => do
  let key := "BINARY[" ++ (← d.fieldText v .opCode) ++ "]"
  prepare d simplified v key (.record (← parts d simplified v [("lhs", .lhs), ("rhs", .rhs)]))

/-- A Boolean operator by its form. -/
def boolean (word : String) (fields : List (String × Field)) : Rule := fun d simplified v => do
  headed (word ++ "[" ++ (← Label.formName v) ++ "]") fields d simplified v

/-- An assignment with an operator over its target and value. -/
def augAssign : Rule := fun d simplified v => do
  headed (← label d v) [("target", .target), ("value", .value)] d simplified v

/-- A chain of comparisons over its operands. -/
def compare : Rule := fun d simplified v => do
  let key := "COMPARE[" ++ (← joinedTexts ", " (← field v .ops)) ++ "]"
  let left ← part d simplified v "left" .left
  let comparators ← listed d simplified (← field v .comparators)
  prepare d simplified v key (.record [left, ("comparators", comparators)])

/-! ## Callables -/

/-- An argument by name, type and default, over its default. -/
def argument : Rule := fun d simplified v => do
  let name ← d.fieldText v .name
  let type ← d.fieldText v .type
  let key := "Argument[" ++ name ++ ", " ++ type ++ "] = " ++ (← d.fieldText v .defaultValue)
  prepare d simplified v key (← d.fieldOutline false v .defaultValue)

/-- A call over its arguments. -/
def call : Rule := fun d simplified v => do
  let params ← forEach (← field v .args) (d.outline simplified)
  let key := "FUNCTION-CALL[" ++ (← d.fieldText v .fn) ++ "]"
  let counted := countedFrom (fun i => "param(" ++ toString i ++ ")") 0 params
  prepare d simplified v key
    (.single ("Parameters (" ++ toString params.length ++ ")") (.record counted))

/-- A prototype has no outline of its own. -/
def prototype : Rule := fun _ _ _ => fail .prototypeOutline

/-- A function over its arguments and its body. -/
def function (word : String) : Rule := fun d simplified v => do
  let args ← d.fieldOutline simplified (← field v .prototype) .args
  let body ← d.fieldOutline simplified v .body
  let key := word ++ "[" ++ (← d.fieldText (← field v .prototype) .name) ++ "]"
  prepare d simplified v key (.record [("args", args), ("body", body)])

/-- A yielded value. -/
def yieldStmt : Rule := fun d simplified v => do
  let key ← numbered simplified v "YIELD-STMT"
  prepare d simplified v key (← partOrEmpty d simplified v key .value).2

/-! ## Control flow -/

/-- A conditional over its condition and branches. -/
def conditional (key : Bool → Value → Look String) : Rule := fun d simplified v => do
  let both ← parts d simplified v [("condition", .condition), ("then-block", .thenBranch)]
  let otherwise ← match ← field v .elseBranch with
    | .none => pure []
    | w => do pure [("else-block", ← d.outline simplified w)]
  prepare d simplified v (← key simplified v) (.record (both ++ otherwise))

/-- A fixed key. -/
def fixed (key : String) : Bool → Value → Look String :=
  fun _ _ => pure key

/-- A loop over parts of its head, and its body spread beside them. -/
def loop (key : Bool → Value → Look String) (fields : List (String × Field)) : Rule :=
  fun d simplified v => do
    let head ← parts d simplified v fields
    let body ← spread d simplified v .body
    prepare d simplified v (← key simplified v) (.record (Doc.merge head body))

/-- An asynchronous loop, whose start and step may be missing. -/
def asyncLoop (key : String) (first : List (String × Field)) : Rule := fun d simplified v => do
  let head ← parts d simplified v first
  let start ← partOrEmpty d simplified v "start" .start
  let finish ← part d simplified v "end" .finish
  let step ← partOrEmpty d simplified v "step" .step
  let body ← spread d simplified v .body
  prepare d simplified v key (.record (Doc.merge (head ++ [start, finish, step]) body))

/-- A loop whose condition and body are spread beside each other. -/
def whileLoop (key : Bool → Value → Look String) : Rule := fun d simplified v => do
  let condition ← d.fieldOutline simplified v .condition
  let body ← d.fieldOutline simplified v .body
  let key ← key simplified v
  let both := Doc.merge (Doc.merge [] (← ofOutcome condition.entries)) (← ofOutcome body.entries)
  prepare d simplified v key (.record both)

/-- The key of a branch. -/
def caseKey (simplified isDefault : Bool) (v : Value) : Look String := do
  if simplified then
    let id ← number v
    return if isDefault then "CASE-STMT[" ++ id ++ ", default]" else "CASE-STMT[" ++ id ++ "]"
  else return if isDefault then "CASE-STMT[default]" else "CASE-STMT"

/-- A branch over its condition and body. -/
def caseBranch : Rule := fun d simplified v => do
  let condition ← field v .condition
  let key ← caseKey simplified (condition == .none) v
  let head ← match condition with
    | .none => pure []
    | w => do pure [("condition", ← d.outline simplified w)]
  prepare d simplified v key (.record (head ++ [← part d simplified v "body" .body]))

/-- A selection over its value and branches. -/
def switch : Rule := fun d simplified v => do
  let key ← numbered simplified v "SWITCH-STMT"
  let cases ← field v .cases
  let count ← length cases
  let outlines ← (List.range count).mapM fun (i : Nat) => do
    d.outline simplified (← item cases i)
  let branches := Doc.record (countedFrom (fun i => "case_" ++ toString i) 0 outlines)
  let value ← part d simplified v "value" .value
  prepare d simplified v key (.record [value, ("cases", branches)])

/-- A jump by the name of its label. -/
def goto : Rule := fun d simplified v => do
  let name ← d.fieldText (← field v .label) .name
  prepare d simplified v ("GOTO-STMT[" ++ name ++ "]") (.record [])

/-! ## Exceptions and contexts -/

/-- What is thrown. -/
def throwStmt : Rule := fun d simplified v => do
  let key ← numbered simplified v "THROW-STMT"
  let content ←
    if ← truthy (← field v .exception) then d.fieldOutline simplified v .exception
    else pure (.text "")
  prepare d simplified v key content

/-- A body and the parts beside it that are there. -/
def guarded (key : String) (always sometimes : List (String × Field)) : Rule :=
  fun d simplified v => do
    let key ← numbered simplified v key
    let head ← parts d simplified v always
    prepare d simplified v key (.record (head ++ (← partsIfTrue d simplified v sometimes)))

/-- An item of a managed context. -/
def withItem : Rule := fun d simplified v => do
  let key ←
    if ← truthy (← field v .instanceName) then
      pure ("CONTEXT[" ++ (← d.fieldText v .contextExpr) ++ "]")
    else pure "CONTEXT"
  let content := Doc.single key (← d.fieldOutline simplified v .contextExpr)
  return if simplified then content else .single "WithItem" content

/-- A managed context over its items and body. -/
def withStmt : Rule := fun d simplified v => do
  let items ← listed d simplified (← field v .items)
  let body ← part d simplified v "body" .body
  return .single "WITH-STMT" (.record [("items", items), body])

/-! ## Comprehensions -/

/-- An entry for the nodes of a container, unless there are none. -/
def partIfNodes (d : Describe) (simplified : Bool) (v : Value) (key : String) (f : Field) :
    Look (List (String × Doc)) := do
  let container ← field v f
  if ← truthy (← field container .nodes) then return [(key, ← d.outline simplified container)]
  else return []

/-- One clause of a comprehension. -/
def clause : Rule := fun d simplified v => do
  let conditions ← partIfNodes d simplified v "conditions" .conditions
  let head ← parts d simplified v [("target", .target), ("iterable", .iterable)]
  prepare d simplified v (← hashed simplified v (← label d v)) (.record (head ++ conditions))

/-- A comprehension without an element. -/
def comprehension : Rule := fun d simplified v => do
  let generators ← part d simplified v "generators" .generators
  prepare d simplified v (← hashed simplified v (← label d v)) (.record [generators])

/-- A comprehension over its element and its generators. -/
def collected : Rule := fun d simplified v => do
  let key ← hashed simplified v (← label d v)
  let generators ← partIfNodes d simplified v "generators" .generators
  let element ← part d simplified v "element" .element
  prepare d simplified v key (.record (element :: generators))

/-- A generator over its element and its generators. -/
def generator : Rule := fun d simplified v => do
  let key ← hashed simplified v "GENERATOR-EXPR"
  headed key [("element", .element), ("generators", .generators)] d simplified v

/-! ## Classes -/

/-- The sign of a node's visibility. -/
def visibilitySign (v : Value) : Look String := do
  match ← field (← field v .visibility) .name with
  | .text "public" => return "+"
  | .text "private" => return "-"
  | .text "protected" => return "#"
  | .text s => fail (.unknownMember s)
  | w => missingKey w

/-- The key of a class, a structure or an enumeration. -/
def classKey (d : Describe) (v : Value) (word more : String) : Look String := do
  let sign ← visibilitySign v
  return word ++ "[" ++ sign ++ (← d.fieldText v .name) ++ more ++ "]"

/-- The parts of a class that are there. -/
def classParts (d : Describe) (simplified : Bool) (v : Value) : Look (List (String × Doc)) :=
  partsIfTrue d simplified v
    [("bases", .bases), ("decorators", .decorators), ("metaclass", .metaclass),
     ("attributes", .attributes), ("methods", .methods)]

/-- How a class is marked as abstract. -/
def abstractMark (v : Value) : Look String := do
  return if ← truthy (← field v .isAbstract) then ", abstract" else ""

/-- The declaration of a class. -/
def classDecl : Rule := fun d simplified v => do
  let key ← classKey d v "CLASS-DECL" (← abstractMark v)
  prepare d simplified v key (.record (← classParts d simplified v))

/-- The definition of a class, with its body. -/
def classDef : Rule := fun d simplified v => do
  let key ← classKey d v "CLASS-DEF" (← abstractMark v)
  let parts ← classParts d simplified v
  let body ← field v .body
  let entries ←
    if body = .ref Shared.classBody then pure parts
    else do
      Label.refuseOverloaded body Form.block.name
      pure (Doc.put "body" (← d.outline simplified body) parts)
  prepare d simplified v key (.record entries)

/-- An enumeration or a structure. -/
def typeDecl (word : String) (fields : List (String × Field)) : Rule := fun d simplified v => do
  let key ← classKey d v word ""
  prepare d simplified v key (.record (← partsIfTrue d simplified v fields))

/-! ## Packages, imports and subscripts -/

/-- An architecture. -/
def target : Rule := fun d simplified v => do
  let layout ← d.fieldText v .datalayout
  prepare d simplified v "TARGET" (.text (layout ++ ", " ++ (← d.fieldText v .triple)))

/-- A package over its modules and packages. -/
def package : Rule := fun d simplified v => do
  let packages ← listed d simplified (← field v .packages)
  let modules ← listed d simplified (← field v .modules)
  prepare d simplified v (← label d v) (.record [("modules", modules), ("packages", packages)])

/-- A name and what it is called here. -/
def importedName : Rule := fun d simplified v => do
  let asname ←
    if ← truthy (← field v .asname) then pure (", " ++ (← d.fieldText v .asname)) else pure ""
  let key := "Alias [" ++ (← d.fieldText v .name) ++ asname ++ "]"
  prepare d simplified v key (.text "")

/-- An import over its names. -/
def importNames (key : String) : Rule := fun d simplified v => do
  prepare d simplified v key (← listed d simplified (← field v .names))

/-- An import from a module over its names. -/
def importFrom (word : String) : Rule := fun d simplified v => do
  let key := word ++ " [" ++ (← Label.importSource d v) ++ "]"
  prepare d simplified v key (← listed d simplified (← field v .names))

/-- A bound of a subscript, if it is given. -/
def bound (d : Describe) (simplified : Bool) (v : Value) (key : String) (f : Field) :
    Look (List (String × Doc)) := do
  if ← isA (← field v f) .literalNone then return [] else return [← part d simplified v key f]

/-- A subscript over what is indexed and its bounds. -/
def subscript : Rule := fun d simplified v => do
  let indexed ← part d simplified v "indexed" .value
  let lower ←
    if ← isA (← field v .lower) .literalNone then part d simplified v "index" .index
    else part d simplified v "lower" .lower
  let upper ← bound d simplified v "upper" .upper
  let step ← bound d simplified v "step" .step
  prepare d simplified v "SubscriptExpr" (.record ([indexed, lower] ++ upper ++ step))

/-! ## Which form has which rule -/

/-- A key that carries the number when simplified. -/
def countedKey (key : String) : Bool → Value → Look String :=
  fun simplified v => numbered simplified v key

/-- The parts of the head of a loop over a range. -/
def rangeParts : List (String × Field) :=
  [("start", .start), ("end", .finish), ("step", .step)]

/-- The parts of the head of a counting loop. -/
def countParts : List (String × Field) :=
  [("initialization", .initializer), ("condition", .condition), ("update", .update)]

/-- The parts of a structure. -/
def structParts : List (String × Field) :=
  [("decorators", .decorators), ("attributes", .attributes), ("methods", .methods)]

/-- The rule that a form has of its own. -/
def own? : Form → Option Rule
  | .node => some fun _ _ _ => pure .null
  | .nodeList | .arguments => some (container label)
  | .block => some (container blockKey)
  | .moduleRoot => some (container moduleKey)
  | .exprType => some exprType
  | .undefined => some undefined
  | .dataType => some dataType
  | .parenthesizedExpr => some (under "PARENTHESIZED-EXPR" .value)
  | .variableDeclaration | .inlineVariableDeclaration | .variableAssignment =>
    some (labelUnder .value)
  | .identifier => some identifier
  | .deleteStmt => some delete
  | .argument => some argument
  | .functionCall => some call
  | .functionPrototype => some prototype
  | .functionReturn => some (under "RETURN" .value)
  | .functionDef => some (function "FUNCTION-DEF")
  | .functionAsyncDef => some (function "FUNCTIONASYNC-DEF")
  | .lambdaExpr => some (headed "LambdaExpr" [("params", .params), ("body", .body)])
  | .awaitExpr => some (underOrEmpty "AWAIT-EXPR" .value)
  | .yieldExpr => some (underOrEmpty "YIELD-EXPR" .value)
  | .yieldStmt => some yieldStmt
  | .yieldFromExpr => some (under "YIELDFROM-EXPR" .value)
  | .classDeclStmt => some classDecl
  | .classDefStmt => some classDef
  | .enumDeclStmt => some (typeDecl "ENUM-DECL" [("attributes", .attributes)])
  | .structDeclStmt => some (typeDecl "STRUCT-DECL" structParts)
  | .structDefStmt => some (typeDecl "STRUCT-DEF" structParts)
  | .comprehensionClause => some clause
  | .comprehension => some comprehension
  | .listComprehension | .setComprehension => some collected
  | .generatorExpr => some generator
  | .withItem => some withItem
  | .withStmt => some withStmt
  | .throwStmt => some throwStmt
  | .catchHandlerStmt =>
    some (guarded "CATCH-HANDLER-STMT" [("body", .body)] [("name", .name), ("types", .types)])
  | .exceptionHandlerStmt =>
    some (guarded "EXCEPTION-HANDLER-STMT" [("body", .body), ("handlers", .handlers)]
      [("finally_handler", .finallyHandler)])
  | .finallyHandlerStmt => some (guarded "FINALLY-STMT" [("body", .body)] [])
  | .ifStmt => some (conditional (countedKey "IF-STMT"))
  | .ifExpr => some (conditional (fixed "IF-EXPR"))
  | .forRangeLoopStmt => some (loop (countedKey "FOR-RANGE-LOOP-STMT") rangeParts)
  | .forRangeLoopExpr =>
    some (loop (fixed "FOR-RANGE-LOOP-EXPR") (("var", .loopVariable) :: rangeParts))
  | .forCountLoopStmt => some (loop (countedKey "FOR-COUNT-STMT") countParts)
  | .forCountLoopExpr => some (loop (fixed "FOR-COUNT-EXPR") countParts)
  | .asyncForRangeLoopStmt => some (asyncLoop "ASYNC-FOR-RANGE-LOOP-STMT" [])
  | .asyncForRangeLoopExpr =>
    some (asyncLoop "ASYNC-FOR-RANGE-LOOP-EXPR" [("var", .loopVariable)])
  | .breakStmt => some (bare "BREAK-STMT")
  | .continueStmt => some (bare "CONTINUE-STMT")
  | .whileStmt => some (whileLoop (countedKey "WHILE-STMT"))
  | .whileExpr => some (whileLoop (fixed "WHILE-EXPR"))
  | .caseStmt => some caseBranch
  | .switchStmt => some switch
  | .gotoStmt => some goto
  | .walrusOp => some (headed "WALRUS[:=]" [("lhs", .lhs), ("rhs", .rhs)])
  | .assignmentExpr => some (headed "ASSIGNMENT-EXPR" [("targets", .targets), ("value", .value)])
  | .augAssign => some augAssign
  | .compareOp => some compare
  | .starred => some (headed "STARRED[*]" [("value", .value)])
  | .target => some target
  | .package => some package
  | .aliasExpr => some importedName
  | .importStmt => some (importNames "ImportStmt")
  | .importExpr => some (importNames "ImportExpr")
  | .importFromStmt => some (importFrom "ImportFromStmt")
  | .importFromExpr => some (importFrom "ImportFromExpr")
  | .subscriptExpr => some subscript
  | .ellipsis => some bareLabel
  | .typeCastExpr =>
    some (headed "TypeCastExpr" [("expression", .expr), ("target_type", .targetType)])
  | .unaryOp => some unary
  | .binaryOp => some binary
  | .boolBinaryOp => some (boolean "BOOL_BINARY_OP" [("lhs", .lhs), ("rhs", .rhs)])
  | .boolUnaryOp => some (boolean "BOOL_UNARY_OP" [("operand", .operand)])
  | .literal => some literal
  | .literalComplex => some complex
  | .literalString => some (worded "LiteralString")
  | .literalUTF8String => some (worded "LiteralUTF8String")
  | .literalUTF8Char => some (worded "LiteralUTF8Char")
  | .literalDate => some (worded "LiteralDate")
  | .literalTime => some (worded "LiteralTime")
  | .literalTimestamp => some (worded "LiteralTimestamp")
  | .literalDateTime => some (worded "LiteralDateTime")
  | _ => none

/-- The outline of a node by the nearest rule; a place has none. -/
def ofNode (d : Describe) (simplified : Bool) (n : Node) (v : Value) : Look Doc :=
  match n.form.ancestors.findSome? own? with
  | some rule => rule d simplified v
  | none => lacks v "get_struct"

end ProgramTree.Outline
