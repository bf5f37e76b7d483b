/-
The catalogue: what the library offers, by name.

Forms, enumerations and the shared types can be asked for by their names; a name
or number that is not in the catalogue is a fault.
-/
import ProgramTree.Fault
import ProgramTree.Form.Ancestry
import ProgramTree.Modifier

namespace ProgramTree.Catalog

/-! ## Types -/

/-- An entry for a type: its name, the names of all types that it refines with its own
first, and its size in bytes, if types of its sort have one. -/
structure Entry where
  name : String
  ancestors : List String
  byteSize : Option Int
deriving DecidableEq, Repr

/-- The entry of a form. -/
def ofForm (f : Form) : Entry :=
  ⟨f.name, f.ancestors.map Form.name, f.byteSize?⟩

/-- The types that are no forms, each with all that it refines. -/
def others : List (List String) :=
  [["ASTKind"], ["VisibilityKind"], ["ScopeKind"], ["MutabilityKind"], ["ASTMeta"],
   ["Scope"], ["SymbolTable"], ["ScopeNodeBase"], ["ScopeNode", "ScopeNodeBase"]]

/-- The entry of a type by its name. -/
def type (name : String) : Except Fault Entry :=
  match Form.ofName? name, others.find? fun names => names.head? == some name with
  | some f, _ => .ok (ofForm f)
  | none, some names => .ok ⟨name, names, none⟩
  | none, none => .error (.unknownForm name)

/-! ## Enumerations -/

/-- A member of an enumeration by its name. -/
def memberByName (e : Enumeration) (name : String) : Except Fault Member :=
  match e.ofName? name with
  | some m => .ok m
  | none => .error (.unknownMember name)

/-- A member of an enumeration by its number. -/
def memberByCode (e : Enumeration) (code : Int) : Except Fault Member :=
  match e.ofCode? code with
  | some m => .ok m
  | none => .error (.unknownCode code e.name)

/-! ## Shared types -/

/-- The shared types: one for each form of scalar types. -/
def sharedTypes : List (String × Form) :=
  [("t_none", .noneType), ("t_boolean", .boolean), ("t_number", .number),
   ("t_integer", .integer), ("t_unsigned_integer", .unsignedInteger),
   ("t_signed_integer", .signedInteger), ("t_int8", .int8), ("t_int16", .int16),
   ("t_int32", .int32), ("t_int64", .int64), ("t_int128", .int128), ("t_uint8", .uint8),
   ("t_uint16", .uint16), ("t_uint32", .uint32), ("t_uint64", .uint64),
   ("t_uint128", .uint128), ("t_floating", .floating), ("t_float16", .float16),
   ("t_float32", .float32), ("t_float64", .float64), ("t_complex", .complex),
   ("t_complex32", .complex32), ("t_complex64", .complex64), ("t_string", .string),
   ("t_utf8_string", .utf8String), ("t_utf8_char", .utf8Char), ("t_temporal", .temporal),
   ("t_date", .date), ("t_time", .time), ("t_timestamp", .timestamp), ("t_datetime", .dateTime)]

/-- The form of a shared type. -/
def sharedType (name : String) : Except Fault Form :=
  match sharedTypes.lookup name with
  | some f => .ok f
  | none => .error (.unknownConstant name)

/-! ## What is offered -/

/-- The names that the library offers. -/
def names : List String :=
  ["AST", "ASTKind", "ASTNodes", "AliasExpr", "AndOp", "Argument", "Arguments",
   "AssignmentExpr", "AsyncForRangeLoopExpr", "AsyncForRangeLoopStmt", "AugAssign",
   "AwaitExpr", "BinaryOp", "Block", "BoolBinaryOp", "BoolUnaryOp", "Boolean", "BreakStmt",
   "CaseStmt", "CatchHandlerStmt", "ClassDeclStmt", "ClassDefStmt", "CollectionType",
   "CompareOp", "Complex", "Complex32", "Complex64", "Comprehension", "ComprehensionClause",
   "ContinueStmt", "DataType", "DataTypeOps", "Date", "DateTime", "DeleteStmt", "DictType",
   "DoWhileExpr", "DoWhileStmt", "Ellipsis", "EnumDeclStmt", "ExceptionHandlerStmt", "Expr",
   "ExprType", "FinallyHandlerStmt", "Float16", "Float32", "Float64", "Floating",
   "ForCountLoopExpr", "ForCountLoopStmt", "ForRangeLoopExpr", "ForRangeLoopStmt",
   "FunctionAsyncDef", "FunctionCall", "FunctionDef", "FunctionPrototype", "FunctionReturn",
   "GeneratorExpr", "GotoStmt", "Identifier", "IfExpr", "IfStmt", "ImportExpr",
   "ImportFromExpr", "ImportFromStmt", "ImportStmt", "InlineVariableDeclaration", "Int8",
   "Int16", "Int32", "Int64", "Integer", "LambdaExpr", "ListComprehension", "ListType",
   "Literal", "LiteralBoolean", "LiteralComplex", "LiteralComplex32", "LiteralComplex64",
   "LiteralDate", "LiteralDateTime", "LiteralDict", "LiteralFloat16", "LiteralFloat32",
   "LiteralFloat64", "LiteralInt8", "LiteralInt16", "LiteralInt32", "LiteralInt64",
   "LiteralInt128", "LiteralList", "LiteralNone", "LiteralSet", "LiteralString", "LiteralTime",
   "LiteralTimestamp", "LiteralTuple", "LiteralUInt8", "LiteralUInt16", "LiteralUInt32",
   "LiteralUInt64", "LiteralUInt128", "LiteralUTF8Char", "LiteralUTF8String", "Module",
   "MutabilityKind", "NamedExpr", "NandOp", "NoneType", "NorOp", "NotOp", "Number",
   "OperatorType", "OrOp", "Package", "ParenthesizedExpr", "Program", "ScopeKind",
   "SetComprehension", "SetType", "SignedInteger", "SourceLocation", "Starred",
   "StatementType", "String", "StructDeclStmt", "StructDefStmt", "SubscriptExpr", "SwitchStmt",
   "Target", "ThrowStmt", "Time", "Timestamp", "TupleType", "TypeCastExpr", "UInt8", "UInt16",
   "UInt32", "UInt64", "UInt128", "UTF8Char", "UTF8String", "UnaryOp", "Undefined",
   "UnsignedInteger", "Variable", "VariableAssignment", "VariableDeclaration",
   "VisibilityKind", "WalrusOp", "WhileExpr", "WhileStmt", "XnorOp", "XorOp", "YieldExpr",
   "YieldFromExpr", "YieldStmt", "base", "blocks", "callables", "data", "datatypes", "flows",
   "get_version", "literals", "mixes", "packages", "symbol_table", "types"]

/-- The names of the shared types. -/
def sharedNames : List String :=
  ["t_boolean", "t_complex", "t_complex32", "t_complex64", "t_date", "t_datetime", "t_float16",
   "t_float32", "t_float64", "t_floating", "t_int8", "t_int16", "t_int32", "t_int64",
   "t_int128", "t_integer", "t_none", "t_number", "t_signed_integer", "t_string", "t_temporal",
   "t_time", "t_timestamp", "t_uint8", "t_uint16", "t_uint32", "t_uint64", "t_uint128",
   "t_unsigned_integer", "t_utf8_char", "t_utf8_string"]

/-- What is offered of the shared types is all of them, in another order. -/
theorem sharedNames_perm : sharedNames.Perm (sharedTypes.map Prod.fst) := by
  decide

/-- The version of the library, which its converter shares. -/
def version : String := "0.23.1"

end ProgramTree.Catalog
