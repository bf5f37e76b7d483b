/-
What can go wrong.

A fault is a cause with the facts about it. Its wording is in `Fault.message`
and its category, by which callers sort faults, in `Fault.category`; nothing
else in the library writes a message.
-/
import ProgramTree.Text.Quoted

namespace ProgramTree

/-- The causes of failure. -/
inductive Fault
  /-- A thing of type `owner` has no field of this name. -/
  | noField (owner field : String)
  /-- A computed field cannot be set. -/
  | computedField (owner field : String)
  /-- A computed field cannot be taken away. -/
  | computedFieldKept (owner field : String)
  | notIterable (type : String)
  | notIterator (type : String)
  | notMapping (type : String)
  | notSized (type : String)
  | notIndexable (type : String)
  | notCallable (type : String)
  | unhashable (type : String)
  | notRepeatable (type : String)
  /-- A binary operator without a meaning on these types. -/
  | badOperands (op left right : String)
  /-- An order relation without a meaning on these types. -/
  | notOrdered (op left right : String)
  /-- A unary operator without a meaning on this type. -/
  | badOperand (op type : String)
  /-- An item of a joined sequence is no text. -/
  | joinItem (index : Nat) (type : String)
  /-- A label turned out to be no text but something of this type. -/
  | labelNotText (type : String)
  /-- Nothing converts things of this type. -/
  | unconvertible (path : String)
  /-- A conversion gave a term of another sort than it promises. -/
  | wrongTerm (got promised : String)
  /-- A term that needs a value has none. -/
  | termWithoutValue
  /-- A text and a thing of this type cannot be put together. -/
  | notJoinable (type : String)
  | missingArguments (owner : String) (names : List String)
  | unexpectedArgument (owner name : String)
  /-- A binary operator was given operands whose types are no data types. -/
  | operandTypes (left right : String)
  | comparatorCount
  | badComparison (op : String)
  | conditionMissing
  | conditionUnwanted
  /-- A prototype has no outline of its own. -/
  | prototypeOutline
  | unknownLabel (label : String)
  | unknownForm (name : String)
  /-- Something of this type is no index into a sequence of the type `owner`. -/
  | badIndex (owner type : String)
  /-- A dictionary without this key, given as it is written. -/
  | missingKey (key : String)
  /-- An index outside a sequence of this type. -/
  | indexRange (type : String)
  /-- An iteration has come to its end. -/
  | exhausted
  | badDirection
  | unexpectedOption (name : String)
  | toolMissing
  | toolFailed (message : String)
  | noScope
  | undeclared
  | undefinedName (name : String)
  /-- A scope that the table does not hold. -/
  | foreignScope
  | unknownCode (code : Int) (enumeration : String)
  | unknownMember (name : String)
  | unknownConstant (name : String)
  | outsideSources (path sources : String)
  | notSerializable (type : String)
  /-- A dictionary has a key of this type, which cannot be written. -/
  | badKey (type : String)
  /-- A collection that contains itself cannot be written. -/
  | circular
  /-- A container that was made for one sort of nodes cannot be written. -/
  | sortedContainer
  /-- A structure nested deeper than it has parts: it contains itself. -/
  | tooDeep
  /-- An address without a cell. -/
  | dangling
deriving DecidableEq, Repr

namespace Fault

/-- The categories of faults. -/
inductive Category
  | attribute | type | value | key | index | name | runtime | general | exhausted | lookup
  | recursion
deriving DecidableEq, Repr

/-- The category of a fault. -/
def category : Fault → Category
  | .noField .. | .computedField .. | .computedFieldKept .. | .unknownConstant _
  | .unknownForm _ => .attribute
  | .notIterable _ | .notIterator _ | .notMapping _ | .notSized _ | .notIndexable _ | .notCallable _
  | .unhashable _ | .notRepeatable _ | .badOperands .. | .notOrdered .. | .badOperand ..
  | .joinItem .. | .labelNotText _ | .wrongTerm ..
  | .missingArguments .. | .unexpectedArgument .. | .notSerializable _
  | .badKey _ | .sortedContainer | .badIndex .. | .unexpectedOption _ | .notJoinable _ => .type
  | .termWithoutValue | .comparatorCount | .badComparison _ | .conditionMissing
  | .conditionUnwanted | .badDirection | .circular
  | .unknownCode .. | .outsideSources .. => .value
  | .unknownLabel _ | .foreignScope | .unknownMember _ | .missingKey _ => .key
  | .indexRange _ => .index
  | .undefinedName _ => .name
  | .toolMissing | .toolFailed _ => .runtime
  | .operandTypes .. | .prototypeOutline | .noScope | .undeclared => .general
  | .exhausted => .exhausted
  | .unconvertible _ => .lookup
  | .tooDeep | .dangling => .recursion

/-- The word for a category. -/
def Category.word : Category → String
  | .attribute => "AttributeError"
  | .type => "TypeError"
  | .value => "ValueError"
  | .key => "KeyError"
  | .index => "IndexError"
  | .name => "NameError"
  | .runtime => "RuntimeError"
  | .general => "Exception"
  | .exhausted => "StopIteration"
  | .lookup => "NotFoundLookupError"
  | .recursion => "RecursionError"

/-- A text between single quotes. -/
def named (s : String) : String :=
  "'" ++ s ++ "'"

/-- Names in a sentence: `'a'`, `'a' and 'b'`, `'a', 'b', and 'c'`. -/
def enumerated : List String → String
  | [] => ""
  | [a] => named a
  | [a, b] => named a ++ " and " ++ named b
  | names =>
    let quoted := names.map named
    String.intercalate ", " quoted.dropLast ++ ", and " ++ quoted.getLastD ""

/-- The path of the converter, as messages give it. -/
def converterPath : String :=
  "astx_transpilers.python_to_ast.ASTxPythonASTTranspiler"

/-- The wording of a fault; a foreign scope has none. -/
def message : Fault → Option String
  | .noField owner field => some (named owner ++ " object has no attribute " ++ named field)
  | .computedField owner field =>
    some ("property " ++ named field ++ " of " ++ named owner ++ " object has no setter")
  | .computedFieldKept owner field =>
    some ("property " ++ named field ++ " of " ++ named owner ++ " object has no deleter")
  | .notIterable type => some (named type ++ " object is not iterable")
  | .notIterator type => some (named type ++ " object is not an iterator")
  | .notMapping type => some (named type ++ " object is not a mapping")
  | .notSized type => some ("object of type " ++ named type ++ " has no len()")
  | .notIndexable type => some (named type ++ " object is not subscriptable")
  | .notCallable type => some (named type ++ " object is not callable")
  | .unhashable type => some ("unhashable type: " ++ named type)
  | .notRepeatable type => some ("can't multiply sequence by non-int of type " ++ named type)
  | .badOperands op left right =>
    some ("unsupported operand type(s) for " ++ op ++ ": " ++ named left ++ " and " ++ named right)
  | .notOrdered op left right =>
    some (named op ++ " not supported between instances of " ++ named left ++ " and " ++
      named right)
  | .badOperand op type => some ("bad operand type for unary " ++ op ++ ": " ++ named type)
  | .labelNotText type => some ("__str__ returned non-string (type " ++ type ++ ")")
  | .joinItem index type =>
    some ("sequence item " ++ toString index ++ ": expected str instance, " ++ type ++ " found")
  | .unconvertible path =>
    some ("For function \"visit\" of " ++ converterPath ++ ", signature Signature("
      ++ converterPath ++ ", " ++ path ++ ") could not be resolved.")
  | .wrongTerm got promised =>
    some ("Cannot convert a \"" ++ got ++ "\" to a \"" ++ promised ++ "\".")
  | .termWithoutValue => some "Node can't be used without a value attribute."
  | .notJoinable type => some ("can only concatenate str (not \"" ++ type ++ "\") to str")
  | .missingArguments owner names =>
    let noun := if names.length = 1 then " required positional argument: "
      else " required positional arguments: "
    some (owner ++ ".__init__() missing " ++ toString names.length ++ noun ++ enumerated names)
  | .unexpectedArgument owner name =>
    some (owner ++ ".__init__() got an unexpected keyword argument " ++ named name)
  | .operandTypes left right =>
    some ("For now, binary operators are just allowed for `DataType`.LHS: " ++ left ++ ", RHS: "
      ++ right)
  | .comparatorCount => some "Number of operators must equal number of comparators."
  | .badComparison op => some ("Invalid comparison operator: " ++ op)
  | .conditionMissing => some "Condition must be provided for non-default branches."
  | .conditionUnwanted => some "Condition must NOT be provided for default branches."
  | .prototypeOutline => some "Visitor method not necessary"
  | .unknownLabel label => some (Text.quoted label)
  | .unknownForm name => some ("module 'astx' has no attribute " ++ named name)
  | .badIndex owner type =>
    some (if owner = "string" then "string indices must be integers, not " ++ named type
      else owner ++ " indices must be integers or slices, not " ++ type)
  | .missingKey key => some key
  | .indexRange type => some (type ++ " index out of range")
  | .exhausted => some ""
  | .badDirection => some "direction must be \"TD\" or \"LR\""
  | .unexpectedOption name =>
    some ("visualize_ascii() got an unexpected keyword argument " ++ named name)
  | .toolMissing => some ("mermaid-ascii CLI not found. Install the PyPI package that ships the "
      ++ "binary, or put `mermaid-ascii` on PATH.")
  | .toolFailed message => some message
  | .noScope => some "SymbolTable: No scope active."
  | .undeclared => some "This name doesn't exist in the SymbolTable."
  | .undefinedName name => some ("Name " ++ named name ++ " is not defined")
  | .foreignScope => none
  | .unknownCode code enumeration =>
    some (toString code ++ " is not a valid " ++ enumeration)
  | .unknownMember name => some (Text.quoted name)
  | .unknownConstant name =>
    some ("module 'astx.types.ttypes' has no attribute " ++ named name)
  | .outsideSources path sources =>
    some (Text.quoted path ++ " is not in the subpath of " ++ Text.quoted sources
      ++ " OR one path is relative and the other is absolute.")
  | .notSerializable type => some ("Object of type " ++ type ++ " is not JSON serializable")
  | .badKey type => some ("keys must be str, int, float, bool or None, not " ++ type)
  | .circular => some "Circular reference detected"
  | .sortedContainer => some "object.__reduce_ex__() takes exactly one argument (0 given)"
  | .tooDeep => some "maximum recursion depth exceeded"
  | .dangling => some "maximum recursion depth exceeded"

end Fault

end ProgramTree
