/-
Terms: the syntax tree of the target language.

Every part of a term is again a term, whatever its sort, because a conversion may
put a term of any sort, or a list of terms, where an expression is expected.
Names are documents: a name that came from a changed field need not be a text.
-/
import ProgramTree.Doc
import ProgramTree.Target.Sign

namespace ProgramTree.Target

/-- Whether a name is read or bound. -/
inductive Context
  | load | store
deriving DecidableEq, Repr

/-- A term. -/
inductive Term
  /-- A part that is not there. -/
  | absent
  /-- Several terms where one is expected. -/
  | items (terms : List Term)
  -- Expressions.
  | name (id : Doc) (context : Context)
  | constant (value : Doc)
  | ellipsis
  | tuple (elements : List Term) (context : Context)
  | list (elements : List Term)
  | set (elements : List Term)
  | dict (entries : List (Term × Term))
  | attribute (value : Term) (attr : String)
  | subscript (value index : Term)
  | slice (lower upper step : Term)
  | starred (value : Term)
  | call (func : Term) (args keywords : List Term)
  | unary (sign : UnarySign) (operand : Term)
  | binary (left : Term) (sign : BinarySign) (right : Term)
  | logical (sign : LogicalSign) (values : List Term)
  | compare (left : Term) (signs : List CompareSign) (comparators : List Term)
  | named (target value : Term)
  | conditional (test body orElse : Term)
  | lambda (args body : Term)
  | await (value : Term)
  | yield (value : Term)
  | yieldFrom (value : Term)
  | listComp (element : Term) (generators : List Term)
  | setComp (element : Term) (generators : List Term)
  | generator (element : Term) (generators : List Term)
  -- Statements.
  | expr (value : Term)
  | assign (targets : List Term) (value : Term) (placed : Bool)
  | augAssign (target : Term) (sign : BinarySign) (value : Term)
  | annAssign (target hint value : Term)
  | pass
  | breakLoop
  | continueLoop
  | giveBack (value : Term)
  | raise (exception : Term)
  | delete (targets : List Term)
  | importing (names : List Term)
  | importFrom (source : Doc) (names : List Term) (level : Doc)
  | ifStmt (test : Term) (body orElse : List Term)
  | whileLoop (test : Term) (body : List Term)
  | forLoop (target iterable : Term) (body : List Term) (placed : Bool)
  | tryStmt (body handlers finalBody : List Term)
  | matchStmt (subject : Term) (cases : List Term)
  | functionDef (name : Doc) (args : Term) (body : List Term) (returns : Term) (placed : Bool)
  | asyncFunctionDef (name : Doc) (args : Term) (body : List Term) (returns : Term)
      (placed : Bool)
  | classDef (name : Doc) (bases body decorators : List Term)
  -- Neither.
  | moduleRoot (body : List Term)
  | imported (name asname : Doc)
  | arg (name : Doc) (hint : Term)
  | arguments (args : List Term)
  | comprehension (target iterable : Term) (conditions : List Term) (isAsync : Bool)
  | handler (type : Term) (name : Doc) (body : List Term)
  | matchCase (pattern : Term) (body : List Term)
  | wildcard
  | keyword (name : String) (value : Term)

/-- The sorts of terms. -/
inductive TermSort
  | expression | statement | other | several
deriving DecidableEq, Repr

namespace Term

/-- The name of the class of a term. -/
def className : Term → String
  | .absent => "NoneType"
  | .items _ => "list"
  | .name .. => "Name"
  | .constant _ | .ellipsis => "Constant"
  | .tuple .. => "Tuple"
  | .list _ => "List"
  | .set _ => "Set"
  | .dict _ => "Dict"
  | .attribute .. => "Attribute"
  | .subscript .. => "Subscript"
  | .slice .. => "Slice"
  | .starred _ => "Starred"
  | .call .. => "Call"
  | .unary .. => "UnaryOp"
  | .binary .. => "BinOp"
  | .logical .. => "BoolOp"
  | .compare .. => "Compare"
  | .named .. => "NamedExpr"
  | .conditional .. => "IfExp"
  | .lambda .. => "Lambda"
  | .await _ => "Await"
  | .yield _ => "Yield"
  | .yieldFrom _ => "YieldFrom"
  | .listComp .. => "ListComp"
  | .setComp .. => "SetComp"
  | .generator .. => "GeneratorExp"
  | .expr _ => "Expr"
  | .assign .. => "Assign"
  | .augAssign .. => "AugAssign"
  | .annAssign .. => "AnnAssign"
  | .pass => "Pass"
  | .breakLoop => "Break"
  | .continueLoop => "Continue"
  | .giveBack _ => "Return"
  | .raise _ => "Raise"
  | .delete _ => "Delete"
  | .importing _ => "Import"
  | .importFrom .. => "ImportFrom"
  | .ifStmt .. => "If"
  | .whileLoop .. => "While"
  | .forLoop .. => "For"
  | .tryStmt .. => "Try"
  | .matchStmt .. => "Match"
  | .functionDef .. => "FunctionDef"
  | .asyncFunctionDef .. => "AsyncFunctionDef"
  | .classDef .. => "ClassDef"
  | .moduleRoot _ => "Module"
  | .imported .. => "alias"
  | .arg .. => "arg"
  | .arguments _ => "arguments"
  | .comprehension .. => "comprehension"
  | .handler .. => "ExceptHandler"
  | .matchCase .. => "match_case"
  | .wildcard => "MatchAs"
  | .keyword .. => "keyword"

/-- The sort of a term. -/
def sort : Term → TermSort
  | .items _ => .several
  | .name .. | .constant _ | .ellipsis | .tuple .. | .list _ | .set _ | .dict _ | .attribute ..
  | .subscript .. | .slice .. | .starred _ | .call .. | .unary .. | .binary .. | .logical ..
  | .compare .. | .named .. | .conditional .. | .lambda .. | .await _ | .yield _ | .yieldFrom _
  | .listComp .. | .setComp .. | .generator .. => .expression
  | .expr _ | .assign .. | .augAssign .. | .annAssign .. | .pass | .breakLoop | .continueLoop
  | .giveBack _ | .raise _ | .delete _ | .importing _ | .importFrom .. | .ifStmt .. | .whileLoop ..
  | .forLoop .. | .tryStmt .. | .matchStmt .. | .functionDef .. | .asyncFunctionDef ..
  | .classDef .. => .statement
  | _ => .other

/-- A name that is read. -/
def load (id : String) : Term :=
  .name (.text id) .load

/-- A name that is bound. -/
def store (id : Doc) : Term :=
  .name id .store

/-- A call without keywords of a function given by its name. -/
def callOf (function : String) (args : List Term) : Term :=
  .call (load function) args []

/-- A constant that is a text. -/
def textConstant (s : String) : Term :=
  .constant (.text s)

/-- A name made into one that is bound; other terms stay. -/
def bound : Term → Term
  | .name id _ => .name id .store
  | t => t

/-- Whether a term counts as true: an absent one and an empty list do not. -/
def isTrue : Term → Bool
  | .absent => false
  | .items ts => !ts.isEmpty
  | _ => true

/-- A term that knows its place in the source, as far as it can tell. -/
def placed : Term → Except Fault Term
  | .absent => .error (.noField "NoneType" "lineno")
  | .items _ => .error (.noField "list" "lineno")
  | .assign targets value _ => .ok (.assign targets value true)
  | .forLoop target iterable body _ => .ok (.forLoop target iterable body true)
  | .functionDef title args body returns _ => .ok (.functionDef title args body returns true)
  | .asyncFunctionDef title args body returns _ =>
    .ok (.asyncFunctionDef title args body returns true)
  | t => .ok t

end Term

end ProgramTree.Target
