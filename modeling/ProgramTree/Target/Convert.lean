/-
Converting nodes to terms: what all rules share.

A rule converts the nodes of one form and asks for the conversions of the nodes
inside. A node that lacks the fields that its rule needs gets a stand-in: a
constant or a name that shows what it is. What a rule promises is checked, so a
stand-in of the wrong class is a fault.
-/
import ProgramTree.Build.Collections
import ProgramTree.Target.Term

namespace ProgramTree.Target

open Look

/-- A conversion of any value. -/
abbrev Visit := Value → Look Term

/-- How the nodes of a form are converted, given how the values inside are. -/
abbrev Rule := Visit → Value → Look Term

/-- What a rule promises of its terms. -/
inductive Promise
  | anything
  /-- One term, of whatever class. -/
  | oneTerm
  /-- Several terms. -/
  | several
  /-- A term of one of these classes, which are in alphabetical order. -/
  | oneOf (classNames : List String)
deriving DecidableEq, Repr

namespace Promise

/-- The path of a class of terms. -/
def classPath (className : String) : String :=
  "ast." ++ className

/-- The path of the class of a term. -/
def termPath (t : Term) : String :=
  match t with
  | .absent | .items _ => "builtins." ++ t.className
  | t => classPath t.className

/-- The wording of a promise. -/
def wording : List String → String
  | [c] => classPath c
  | cs => "Union[" ++ String.intercalate ", " (cs.map classPath) ++ "]"

/-- Checks that a term keeps a promise. -/
def check (promise : Promise) (t : Term) : Except Fault Unit :=
  match promise with
  | .anything | .several => .ok ()
  | .oneTerm =>
    match t with
    | .absent | .items _ => .error (.wrongTerm (termPath t) "ast.AST")
    | _ => .ok ()
  | .oneOf classNames =>
    if classNames.contains t.className then .ok ()
    else .error (.wrongTerm (termPath t) (wording classNames))

end Promise

/-- A rule with its promise. -/
structure Method where
  promise : Promise
  rule : Rule

namespace Convert

/-- A field as a document. -/
def fieldDoc (v : Value) (f : Field) : Look Doc := do
  Look.doc (← field v f)

/-- A constant that shows the form of a node. -/
def formConstant (v : Value) : Look Term := do
  return Term.textConstant ("<" ++ (← typeName v) ++ ">")

/-- The stand-in of a node: its value as a text, else its name, else its form. -/
def standIn (v : Value) : Look Term :=
  rescue (do
    match ← field? v .value with
    | some w => return Term.textConstant (← text w)
    | none =>
      match ← field? v .name with
      | some w => return Term.load (← text w)
      | none => formConstant v) fun _ => formConstant v

/-- A rule for nodes that have some fields; the others get a stand-in. -/
def requiring (fields : List Field) (rule : Rule) : Rule := fun visit v => do
  if ← hasAll v fields then rule visit v else standIn v

/-- Converts a field. -/
def visitField (visit : Visit) (v : Value) (f : Field) : Look Term := do
  visit (← field v f)

/-- Converts a field that counts as true; else something stands for it. -/
def visitTrue (visit : Visit) (v : Value) (f : Field) (missing : Term) : Look Term := do
  match ← truthyField? v f with
  | some w => visit w
  | none => return missing

/-- Converts the items of a value in turn, by a walk over it. -/
def visitEach (visit : Visit) (v : Value) : Look (List Term) :=
  forEach v visit

/-- Converts the nodes of a container without walking over it. -/
def visitNodes (visit : Visit) (v : Value) : Look (List Term) := do
  forEach (← field v .nodes) visit

/-- What a converted node adds to a body: statements as they are, an expression as a
statement, anything else as nothing done. -/
def contribution (t : Term) : List Term :=
  match t.sort, t with
  | .several, .items ts => ts
  | .statement, t => [t]
  | .expression, t => [.expr t]
  | _, _ => [.pass]

/-- The body that a block converts to. A node that cannot be converted adds nothing,
and a body that would be empty does nothing. -/
def block (visit : Visit) (b : Value) : Look (List Term) := do
  if !(← truthy b) then return [.pass]
  if !(← has b .nodes) then return [.pass]
  let parts ← forEach (← field b .nodes) fun x =>
    rescue (do return contribution (← visit x)) fun _ => return []
  return if parts.flatten.isEmpty then [.pass] else parts.flatten

/-- The body that a field converts to. -/
def fieldBlock (visit : Visit) (v : Value) (f : Field) : Look (List Term) := do
  if ← has v f then block visit (← field v f) else return [.pass]

/-- The sign under a key of a table; keys that cannot be told apart are a fault. -/
def signOf {α : Type} (table : String → Option α) (key : Value) : Look (Option α) := do
  let _ ← Build.markOf key
  match key with
  | .text s => return table s
  | _ => return none

/-- The path of the type of a value, as messages give it. -/
def typePath (v : Value) : Look String := do
  match v with
  | .member m => return m.enumeration.path
  | _ =>
    match ← node? v with
    | some n => return n.form.path
    | none => return "builtins." ++ (← typeName v)

end Convert

end ProgramTree.Target
