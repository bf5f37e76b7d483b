/-
Constructors.

A constructor makes the node first, with the fields that every node has, adds it
to its parent, and then goes on to the fields of its form. A fault in between
leaves the half-made node in its parent.
-/
import ProgramTree.Build.Copy
import ProgramTree.Build.Signature

namespace ProgramTree.Build

/-! ## Starting a node -/

/-- The fields of every node; then the node joins its parent. -/
def startNode (a : Address) (args : Arguments) : Build Unit := do
  let loc := (args.lookup .loc).getD (.ref Shared.noPlace)
  let parent := args.get .parent
  setFields a (Shared.baseFields loc parent)
  if parent ≠ .none then append parent (.ref a)

/-- A new node of a form, without place and parent. -/
def newBare (form : Form) : Build Address := do
  let a ← new (.node ⟨form, 0, []⟩)
  startNode a []
  return a

/-- A node with a temporary name and a plain type. -/
def startType (a : Address) (args : Arguments) : Build Unit := do
  startNode a args
  let name ← tempName
  setField a .name (.text name)
  let type ← newBare .exprType
  setField a .type (.ref type)

/-- A node of a form that is no container: data types get a name and a plain type. -/
def startForm (a : Address) (form : Form) (args : Arguments) : Build Unit :=
  if form.isA .dataType then startType a args else startNode a args

/-- A node with an empty list of nodes. -/
def startContainer (a : Address) (args : Arguments) (name : Value) : Build Unit := do
  startNode a args
  let nodes ← newList []
  setFields a [(.name, name), (.nodes, nodes), (.position, .int 0)]

/-- A new container of nodes; one that is made for nodes of one form keeps their sort. -/
def newContainer (sort : Option Form) (items : List Value) : Build Value := do
  let a ← new (.node ⟨.nodeList, 0, []⟩)
  startContainer a [] (.text "entry")
  match sort with
  | some form => setField a .itemSort (.text form.path)
  | none => pure ()
  items.forM fun v => append (.ref a) v
  return .ref a

/-- A type of a form, by the form's constructor without arguments. -/
def newType (form : Form) : Build Value := do
  match Arguments.fill form [] with
  | .error e => fail e
  | .ok args =>
    let a ← new (.node ⟨form, 0, []⟩)
    startForm a form args
    return .ref a

/-- A new type of the same form as another; of a value that is no type, the empty
value of its sort. -/
def newTypeLike (type : Value) : Build Value := do
  match type with
  | .none | .member _ => return type
  | .bool _ => return .bool false
  | .int _ => return .int 0
  | .float _ => return .float (Double.ofInt 0)
  | .text _ => return .text ""
  | .ref a =>
    match ← Look.cell a with
    | .node n => newType n.form
    | .list _ => newList []
    | .tuple _ => newTuple []
    | .set _ => return .ref (← new (.set []))
    | .dict _ => return .ref (← new (.dict []))

/-! ## Keeping arguments -/

/-- A container as it is, or a new one for a field with the items of a value. -/
def gather (f : Field) (v : Value) : Build Value := do
  if ← Look.isA v .nodeList then return v
  else newContainer f.itemForm? (← Look.items v)

/-- Puts an argument into its field. -/
def keep (a : Address) (p : Param) (v : Value) : Build Unit := do
  match p.keeping with
  | .plain => setField a p.field v
  | .gathered => setField a p.field (← gather p.field v)
  | .gatheredIfTrue =>
    if ← Look.truthy v then setField a p.field (← gather p.field v) else setField a p.field .none
  | .gatheredOrNew =>
    setField a p.field (← rescue (gather p.field v) fun _ => newContainer (some .expr) [])
  | .gatheredOrAway =>
    rescue (do setField a p.field (← gather p.field v)) fun _ => return ()
  | .elsewhere => return ()

/-- Puts all arguments of a form's constructor into their fields. -/
def keepAll (a : Address) (form : Form) (args : Arguments) : Build Unit :=
  form.fillOrder.forM fun p => keep a p (args.get p.field)

/-- Gives a node the kind of its form. -/
def giveKind (a : Address) (form : Form) : Build Unit :=
  setField a .kind (.member (.kind form.builtKind))

/-! ## Operators -/

/-- Whether the overloaded operators apply to a value. -/
def overloads (v : Value) : Look Bool :=
  Look.isA v .dataTypeOps

/-- Whether a comparison asks the right operand before the left one: it refines the
left one, or it alone overloads comparisons. -/
def asksRight (left right : Value) : Look Bool := do
  if !(← overloads right) then return false
  match ← Look.node? left, ← Look.node? right with
  | some m, some n => return !m.form.isA .dataTypeOps || (n.form ≠ m.form && n.form.isA m.form)
  | _, _ => return true

/-- The number that a value counts as. -/
def number? : Value → Option Double
  | .bool b => some (Double.ofInt (if b then 1 else 0))
  | .int n => some (Double.ofInt n)
  | .float x => some x
  | _ => none

/-- Whether a size is larger than another one. -/
def larger (x y : Value) : Look Bool := do
  match x, y with
  | .int m, .int n => return n < m
  | .text s, .text t => return t < s
  | _, _ =>
    match number? x, number? y with
    | some a, some b => return b.below a
    | _, _ => Look.fail (.notOrdered ">" (← Look.typeName x) (← Look.typeName y))

/-- The larger one of two types, the left one if they are of one size. -/
def widerType (left right : Value) : Look Value := do
  let m ← Look.field left .byteSize
  let n ← Look.field right .byteSize
  return if ← larger n m then right else left

/-- Fills a binary operator that was started: the operands' types must be data
types. Types that are operands themselves are compared by making a comparison of
them, which counts as true; `fuel` bounds how often. -/
def fillBinary : Nat → Address → Value → Value → Value → Build Unit
  | 0, _, _, _, _ => fail .tooDeep
  | fuel + 1, a, op, lhs, rhs => do
    setFields a [(.opCode, op), (.lhs, lhs), (.rhs, rhs), (.kind, .member (.kind .binaryOp))]
    let left ← Look.field lhs .type
    let typed ← if ← Look.isA left .dataType then do
        Look.isA (← Look.field rhs .type) .dataType
      else pure false
    let right ← Look.field rhs .type
    if !typed then fail (.operandTypes (← Look.text left) (← Look.text right))
    else if (← overloads left) || (← overloads right) then
      let b ← new (.node ⟨.binaryOp, 0, []⟩)
      startType b []
      if ← asksRight left right then fillBinary fuel b (.text "==") right left
      else fillBinary fuel b (.text "==") left right
      setField a .type left
    else if left = right then setField a .type left
    else setField a .type (← widerType left right)

/-- Fills a binary operator. -/
def fillOperator (a : Address) (op lhs rhs : Value) : Build Unit := do
  fillBinary ((← store).cells.size + 1) a op lhs rhs

/-- The code of an operator: given, or lent by its form. -/
def operatorCode (form : Form) (args : Arguments) : Value :=
  match args.lookup .opCode with
  | some v => v
  | none => (form.lent? .opCode).getD .none

/-- The comparison signs. -/
def comparisonSigns : List String :=
  ["==", "!=", "<", ">", "<=", ">="]

/-- Fills a chain of comparisons. -/
def fillComparison (a : Address) (args : Arguments) : Build Unit := do
  let ops ← Look.forEach (args.get .ops) pure
  setField a .ops (← newList ops)
  let comparators ← Look.forEach (args.get .comparators) pure
  setField a .comparators (← newList comparators)
  if ops.length ≠ comparators.length then fail .comparatorCount
  match ops.find? fun v => !comparisonSigns.any fun s => v = .text s with
  | some v => fail (.badComparison (← Look.text v))
  | none => setField a .left (args.get .left)

/-! ## Literals -/

/-- The data type of a plain literal. -/
def literalType? : Form → Option Form
  | .literalNone => some .noneType
  | .literalBoolean => some .boolean
  | .literalInt8 => some .int8
  | .literalInt16 => some .int16
  | .literalInt32 => some .int32
  | .literalInt64 => some .int64
  | .literalInt128 => some .int128
  | .literalUInt8 => some .uint8
  | .literalUInt16 => some .uint16
  | .literalUInt32 => some .uint32
  | .literalUInt64 => some .uint64
  | .literalUInt128 => some .uint128
  | .literalFloat16 => some .float16
  | .literalFloat32 => some .float32
  | .literalFloat64 => some .float64
  | .literalString | .literalUTF8String | .literalUTF8Char => some .string
  | .literalDate => some .date
  | .literalTime => some .time
  | .literalTimestamp => some .timestamp
  | .literalDateTime => some .dateTime
  | .literalComplex32 => some .complex32
  | .literalComplex64 => some .complex64
  | _ => none

/-- The data type that replaces the first one. -/
def refinedType? : Form → Option Form
  | .literalUTF8String => some .utf8String
  | .literalUTF8Char => some .utf8Char
  | _ => none

/-- Gives a literal a new data type. -/
def giveType (a : Address) (type : Option Form) : Build Unit := do
  match type with
  | some form => setField a .type (← newType form)
  | none => return ()

/-- What tells types of different forms apart. -/
def sortOf (type : Value) : Look (Bool × String) := do
  return ((← Look.node? type).isSome, ← Look.typeName type)

/-- The types of the items of a collection, the first of each form. -/
def distinctTypes (items : List Value) : Look (List Value) := do
  let types ← items.mapM fun v => Look.field v .type
  types.foldlM (fun kept t => do
    let sort ← sortOf t
    let sorts ← kept.mapM sortOf
    return if sorts.contains sort then kept else kept ++ [t]) []

/-- A new type of the one form that the items have, else of integers. -/
def commonType (types : List Value) : Build Value :=
  match types with
  | [type] => newTypeLike type
  | _ => newType .int32

/-- The entries of a dictionary. -/
def entriesOf (v : Value) : Look (List (Value × Value)) := do
  match v with
  | .ref a =>
    match ← Look.cell a with
    | .dict es => return es
    | c => Look.fail (.notIterable c.typeName)
  | _ => Look.fail (.notIterable (← Look.typeName v))

/-- A new node that holds types. -/
def newCollectionType (form : Form) (fields : List (Field × Value)) : Build Value := do
  return .ref (← new (.node ⟨form, 0, fields⟩))

/-- Fills a literal that is a collection. -/
def fillCollection (a : Address) (form : Form) (elements : Value) : Build Unit := do
  match form with
  | .literalTuple =>
    setField a .elements elements
    let types ← Look.forEach elements fun v => Look.field v .type
    setField a .type (← newCollectionType .tupleType [(.elementTypes, ← newList types)])
  | .literalList =>
    let items ← Look.forEach elements pure
    setField a .elements (← newList items)
    let types ← (← distinctTypes items).mapM newTypeLike
    setField a .type (← newCollectionType .listType [(.elementTypes, ← newList types)])
  | .literalSet =>
    let items ← Look.forEach elements pure
    setField a .elements (.ref (← new (.set items)))
    let type ← commonType (← distinctTypes items)
    setField a .type (← newCollectionType .setType [(.elementType, type)])
  | _ =>
    let entries ← entriesOf elements
    setField a .elements (.ref (← new (.dict entries)))
    let keys ← distinctTypes (entries.map Prod.fst)
    let values ← distinctTypes (entries.map Prod.snd)
    let key ← commonType keys
    let value ← commonType values
    setField a .type (← newCollectionType .dictType [(.keyType, key), (.valueType, value)])

/-- Fills a literal: its reference, its value and its type. -/
def fillLiteral (a : Address) (form : Form) (args : Arguments) : Build Unit := do
  startType a args
  let ref ← literalRef
  setField a .ref (.text ref)
  if [.literalList, .literalTuple, .literalSet, .literalDict].contains form then
    fillCollection a form (args.get .elements)
  else
    if form.isA .literalComplex then
      setField a .value (← newTuple [args.get .real, args.get .imag])
    else if form ≠ .literal then setField a .value (args.get .value)
    giveType a (literalType? form)
    giveType a (refinedType? form)

/-- A new literal for what is not there. -/
def newNone : Build Value := do
  let a ← new (.node ⟨.literalNone, 0, []⟩)
  fillLiteral a .literalNone []
  return .ref a

/-! ## The other forms -/

/-- A value, or a new literal for what is not there. -/
def orNone (v : Value) : Build Value :=
  if v = .none then newNone else pure v

/-- Fills a subscript. -/
def fillSubscript (a : Address) (args : Arguments) : Build Unit :=
  [.value, .index, .lower, .upper, .step].forM fun f => do setField a f (← orNone (args.get f))

/-- Fills an identifier: its name, and a type of its own. -/
def fillIdentifier (a : Address) (args : Arguments) : Build Unit := do
  startType a args
  setField a .name (args.get .name)
  setField a .type (← newType .anyType)

/-- The name that a call keeps: that of a function, else what was given. -/
def calledName (fn : Value) : Look Value := do
  if ← Look.isA fn .functionDef then Look.field fn .name else return fn

/-- The body of a class: a copy of the default under a name of its own. -/
def classBody (args : Arguments) : Build Value := do
  if args.get .body = .ref Shared.classBody then
    let body ← copy (.ref Shared.classBody)
    let name ← Look.text (args.get .name)
    match body with
    | .ref b =>
      setField b .name (.text (name ++ "_body"))
      return body
    | _ => return body
  else return args.get .body

/-- Fills a package: its modules and packages are copies. -/
def fillPackage (a : Address) (args : Arguments) : Build Unit := do
  startContainer a args (.text "entry")
  setField a .name (args.get .name)
  setField a .modules (← copy (args.get .modules))
  setField a .packages (← copy (args.get .packages))

/-- A branch has a condition unless it is the default one. -/
def checkCase (args : Arguments) : Build Unit := do
  if args.get .defaultValue = .bool false && args.get .condition = .none then
    fail .conditionMissing
  if args.get .defaultValue = .bool true && args.get .condition ≠ .none then
    fail .conditionUnwanted

/-- Fills a node of which only parent and place are special. -/
def fillPlain (a : Address) (form : Form) (args : Arguments) : Build Unit := do
  startForm a form args
  keepAll a form args
  giveKind a form

/-- Fills a new node by the constructor of its form. -/
def fill (a : Address) (form : Form) (args : Arguments) (rest : List Value) : Build Unit := do
  match form with
  | .place | .withItem | .listType | .tupleType | .setType | .dictType => keepAll a form args
  | .nodeList | .block => startContainer a args (args.get .name)
  | .moduleRoot =>
    startContainer a args (args.get .name)
    giveKind a form
  | .arguments =>
    startContainer a args (args.get .name)
    rest.forM fun v => append (.ref a) v
  | .package => fillPackage a args
  | .program =>
    fillPackage a args
    setField a .target (← copy (args.get .target))
  | .parenthesizedExpr =>
    startType a args
    let other ← newType .dataType
    setField a .type ((← Look.field? (args.get .value) .type).getD other)
    setField a .value (args.get .value)
    giveKind a form
  | .identifier => fillIdentifier a args
  | .variableUse =>
    fillIdentifier a args
    setField a .type (args.get .type)
  | .argument =>
    fillIdentifier a args
    keepAll a form args
    giveKind a form
  | .functionCall =>
    startType a args
    setField a .fn (← calledName (args.get .fn))
    setFields a [(.args, args.get .args), (.type, args.get .type)]
    giveKind a form
  | .classDefStmt =>
    fillPlain a form args
    setField a .body (← classBody args)
  | .caseStmt =>
    fillPlain a form args
    checkCase args
  | .subscriptExpr =>
    startNode a args
    fillSubscript a args
    giveKind a form
  | .compareOp =>
    startType a args
    fillComparison a args
    giveKind a form
  | _ =>
    if form.isA .binaryOp then
      startType a args
      fillOperator a (operatorCode form args) (args.get .lhs) (args.get .rhs)
    else if form.isA .unaryOp then
      startType a args
      setFields a [(.opCode, operatorCode form args), (.operand, args.get .operand)]
      giveKind a form
    else if form.isA .literal then fillLiteral a form args
    else fillPlain a form args

/-- Builds a node of a form: `given` are arguments by name, and `rest` those
without one, which only argument lists take. -/
def construct (form : Form) (rest : List Value) (given : List (Field × Value)) :
    Build Address := do
  match Arguments.fill form given with
  | .error e => fail e
  | .ok args =>
    let a ← new (.node ⟨form, 0, []⟩)
    fill a form args rest
    return a

end ProgramTree.Build
