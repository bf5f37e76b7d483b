/-
The parts of terms.

The grammar of the target language gives each part of a term a place: it says which class of
terms stands there, and whether a name there is read or bound. `Term.parts` lists the parts of a
term with their places, `Place.admits` tells which terms fit a place, and `Term.Has` goes down to
the parts of parts. Nothing here is about conversions.
-/
import ProgramTree.Target.Term

namespace ProgramTree.Target

/-- The places of parts. -/
inductive Place
  /-- A term by itself. -/
  | loose
  /-- An expression that is read. -/
  | value
  /-- An expression that is read and may be missing. -/
  | optional
  /-- An expression that is bound by a statement or a named expression. -/
  | target
  /-- An expression that is bound by a clause of a comprehension. -/
  | clauseTarget
  /-- An expression that is deleted. -/
  | deleted
  | statement
  | pattern
  | branch
  | handler
  | clause
  | imported
  | parameter
  | parameters
  | keyword
deriving DecidableEq, Repr

/-- The classes of expressions. -/
def expressionClasses : List String :=
  ["Name", "Constant", "Tuple", "List", "Set", "Dict", "Attribute", "Subscript", "Slice",
   "Starred", "Call", "UnaryOp", "BinOp", "BoolOp", "Compare", "NamedExpr", "IfExp", "Lambda",
   "Await", "Yield", "YieldFrom", "ListComp", "SetComp", "GeneratorExp"]

/-- The classes of statements. -/
def statementClasses : List String :=
  ["Expr", "Assign", "AugAssign", "AnnAssign", "Pass", "Break", "Continue", "Return", "Raise",
   "Delete", "Import", "ImportFrom", "If", "While", "For", "Try", "Match", "FunctionDef",
   "AsyncFunctionDef", "ClassDef"]

/-- The classes of patterns. -/
def patternClasses : List String :=
  ["MatchValue", "MatchSingleton", "MatchSequence", "MatchMapping", "MatchClass", "MatchStar",
   "MatchAs", "MatchOr"]

namespace Place

/-- Whether terms of a class fit a place. -/
def admitsClass (p : Place) (className : String) : Bool :=
  match p with
  | .loose => true
  | .value | .target | .clauseTarget | .deleted => expressionClasses.contains className
  | .optional => className = "NoneType" || expressionClasses.contains className
  | .statement => statementClasses.contains className
  | .pattern => patternClasses.contains className
  | .branch => className = "match_case"
  | .handler => className = "ExceptHandler"
  | .clause => className = "comprehension"
  | .imported => className = "alias"
  | .parameter => className = "arg"
  | .parameters => className = "arguments"
  | .keyword => className = "keyword"

/-- Whether a term fits a place. -/
def admits (p : Place) (t : Term) : Bool :=
  p.admitsClass t.className

/-- Whether a place is one where something is bound. -/
def binds (p : Place) : Bool :=
  p = .target || p = .clauseTarget

end Place

namespace Term

/-- The parts of a term and their places, in order. -/
def parts : Term → List (Place × Term)
  | .items ts => ts.map (.statement, ·)
  | .tuple es c => es.map (if c = .store then .target else .value, ·)
  | .list es | .set es => es.map (.value, ·)
  | .dict es => es.flatMap fun e => [(.value, e.1), (.value, e.2)]
  | .attribute t _ | .starred t | .unary _ t | .await t | .yieldFrom t | .expr t | .keyword _ t =>
    [(.value, t)]
  | .yield t | .giveBack t | .raise t | .arg _ t => [(.optional, t)]
  | .subscript t index => [(.value, t), (.value, index)]
  | .slice lower upper step => [(.optional, lower), (.optional, upper), (.optional, step)]
  | .call f args keywords =>
    (.value, f) :: (args.map (.value, ·) ++ keywords.map (.keyword, ·))
  | .binary l _ r => [(.value, l), (.value, r)]
  | .logical _ ts => ts.map (.value, ·)
  | .compare l _ ts => (.value, l) :: ts.map (.value, ·)
  | .named target t => [(.target, target), (.value, t)]
  | .conditional test body orElse => [(.value, test), (.value, body), (.value, orElse)]
  | .lambda args body => [(.parameters, args), (.value, body)]
  | .listComp e cs | .setComp e cs | .generator e cs => (.value, e) :: cs.map (.clause, ·)
  | .assign targets t _ => targets.map (.target, ·) ++ [(.value, t)]
  | .augAssign target _ t => [(.target, target), (.value, t)]
  | .annAssign target hint t => [(.target, target), (.value, hint), (.optional, t)]
  | .delete ts => ts.map (.deleted, ·)
  | .importing names | .importFrom _ names _ => names.map (.imported, ·)
  | .ifStmt test body orElse =>
    (.value, test) :: (body.map (.statement, ·) ++ orElse.map (.statement, ·))
  | .whileLoop test body => (.value, test) :: body.map (.statement, ·)
  | .forLoop target iterable body _ =>
    (.target, target) :: (.value, iterable) :: body.map (.statement, ·)
  | .tryStmt body handlers finalBody =>
    body.map (.statement, ·) ++ handlers.map (.handler, ·) ++ finalBody.map (.statement, ·)
  | .matchStmt subject cases => (.value, subject) :: cases.map (.branch, ·)
  | .functionDef _ args body returns _ | .asyncFunctionDef _ args body returns _ =>
    (.parameters, args) :: (body.map (.statement, ·) ++ [(.optional, returns)])
  | .classDef _ bases body decorators =>
    bases.map (.value, ·) ++ body.map (.statement, ·) ++ decorators.map (.value, ·)
  | .moduleRoot body => body.map (.statement, ·)
  | .arguments args => args.map (.parameter, ·)
  | .comprehension target iterable conditions _ =>
    (.clauseTarget, target) :: (.value, iterable) :: conditions.map (.value, ·)
  | .handler type _ body => (.optional, type) :: body.map (.statement, ·)
  | .matchCase pattern body => (.pattern, pattern) :: body.map (.statement, ·)
  | .absent | .name .. | .constant _ | .ellipsis | .pass | .breakLoop | .continueLoop
  | .imported .. | .wildcard => []

/-- The statements that a term must have inside. -/
def body? : Term → Option (List Term)
  | .functionDef _ _ body _ _ | .asyncFunctionDef _ _ body _ _ | .classDef _ _ body _
  | .ifStmt _ body _ | .forLoop _ _ body _ | .whileLoop _ body | .tryStmt body _ _
  | .handler _ _ body | .matchCase _ body | .moduleRoot body => some body
  | _ => none

/-- A term has another one at a place: it is the term itself, or a part of a part. -/
inductive Has (t : Term) : Place → Term → Prop
  | whole : Has t .loose t
  | part {p q : Place} {u c : Term} (h : Has t p u) (hc : (q, c) ∈ u.parts) : Has t q c

theorem ne_loose_of_mem_parts {t c : Term} {p : Place} (h : (p, c) ∈ t.parts) : p ≠ .loose := by
  rintro rfl
  cases t with
  | tuple es ctx =>
    obtain ⟨e, -, he⟩ := List.mem_map.mp h
    split at he <;> cases he
  | _ => simp [parts] at h

end Term

end ProgramTree.Target
