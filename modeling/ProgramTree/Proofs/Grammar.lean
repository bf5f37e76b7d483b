/-
The abstract grammar of terms.

A term of the wrong sort can stand anywhere in a term, because every part of a term
is again a term. `Grammatical` says that none does: expressions stand where
expressions belong and statements where statements belong, at every depth, names are
texts, constants are plain data, and every body has a statement in it.

The grammar is stated for terms alone and knows nothing of conversions. What the
conversions need of it are the closure lemmas at the end: binding a name, putting a
converted node into a body, and giving parameters their places.
-/
import ProgramTree.Proofs.Blocks

namespace ProgramTree

/-- Whether a document is a single number, text, truth value or nothing. -/
def Doc.isScalar : Doc → Bool
  | .null | .bool _ | .int _ | .float _ | .text _ => true
  | _ => false

/-- Whether a document is a text or nothing. -/
def Doc.isName : Doc → Bool
  | .null | .text _ => true
  | _ => false

namespace Target

/-- The places of the grammar. -/
inductive Role
  | expression
  /-- An expression that may be missing. -/
  | optional
  | statement
  | parameter
  | parameters
  | clause
  | handler
  | imported
deriving DecidableEq, Repr

/-- A term is what the grammar wants in a place. -/
inductive Grammatical : Role → Term → Prop
  | absent : Grammatical .optional .absent
  | present {t : Term} (h : Grammatical .expression t) : Grammatical .optional t
  -- Expressions.
  | name {id : String} {c : Context} : Grammatical .expression (.name (.text id) c)
  | constant {d : Doc} (h : d.isScalar = true) : Grammatical .expression (.constant d)
  | ellipsis : Grammatical .expression .ellipsis
  | tuple {es : List Term} {c : Context} (h : ∀ e ∈ es, Grammatical .expression e) :
    Grammatical .expression (.tuple es c)
  | list {es : List Term} (h : ∀ e ∈ es, Grammatical .expression e) :
    Grammatical .expression (.list es)
  | set {es : List Term} (h : ∀ e ∈ es, Grammatical .expression e) :
    Grammatical .expression (.set es)
  | dict {es : List (Term × Term)} (hk : ∀ e ∈ es, Grammatical .expression e.1)
      (hv : ∀ e ∈ es, Grammatical .expression e.2) : Grammatical .expression (.dict es)
  | attribute {t : Term} {attr : String} (h : Grammatical .expression t) :
    Grammatical .expression (.attribute t attr)
  | subscript {t index : Term} (ht : Grammatical .expression t)
      (hi : Grammatical .expression index) : Grammatical .expression (.subscript t index)
  | slice {lower upper step : Term} (hl : Grammatical .optional lower)
      (hu : Grammatical .optional upper) (hs : Grammatical .optional step) :
    Grammatical .expression (.slice lower upper step)
  | starred {t : Term} (h : Grammatical .expression t) : Grammatical .expression (.starred t)
  | call {f : Term} {args : List Term} (hf : Grammatical .expression f)
      (ha : ∀ a ∈ args, Grammatical .expression a) : Grammatical .expression (.call f args [])
  | unary {sign : UnarySign} {t : Term} (h : Grammatical .expression t) :
    Grammatical .expression (.unary sign t)
  | binary {l r : Term} {sign : BinarySign} (hl : Grammatical .expression l)
      (hr : Grammatical .expression r) : Grammatical .expression (.binary l sign r)
  | logical {sign : LogicalSign} {ts : List Term} (htwo : 2 ≤ ts.length)
      (h : ∀ t ∈ ts, Grammatical .expression t) : Grammatical .expression (.logical sign ts)
  | compare {l : Term} {signs : List CompareSign} {ts : List Term}
      (hlen : signs.length = ts.length) (hl : Grammatical .expression l)
      (h : ∀ t ∈ ts, Grammatical .expression t) : Grammatical .expression (.compare l signs ts)
  | named {target t : Term} (ht : Grammatical .expression target)
      (h : Grammatical .expression t) : Grammatical .expression (.named target t)
  | conditional {test body orElse : Term} (ht : Grammatical .expression test)
      (hb : Grammatical .expression body) (ho : Grammatical .expression orElse) :
    Grammatical .expression (.conditional test body orElse)
  | lambda {args body : Term} (ha : Grammatical .parameters args)
      (hb : Grammatical .expression body) : Grammatical .expression (.lambda args body)
  | await {t : Term} (h : Grammatical .expression t) : Grammatical .expression (.await t)
  | yield {t : Term} (h : Grammatical .optional t) : Grammatical .expression (.yield t)
  | yieldFrom {t : Term} (h : Grammatical .expression t) : Grammatical .expression (.yieldFrom t)
  | listComp {e : Term} {cs : List Term} (he : Grammatical .expression e)
      (hc : ∀ c ∈ cs, Grammatical .clause c) : Grammatical .expression (.listComp e cs)
  | setComp {e : Term} {cs : List Term} (he : Grammatical .expression e)
      (hc : ∀ c ∈ cs, Grammatical .clause c) : Grammatical .expression (.setComp e cs)
  | generator {e : Term} {cs : List Term} (he : Grammatical .expression e)
      (hc : ∀ c ∈ cs, Grammatical .clause c) : Grammatical .expression (.generator e cs)
  -- Statements.
  | expr {t : Term} (h : Grammatical .expression t) : Grammatical .statement (.expr t)
  | assign {targets : List Term} {t : Term} {placed : Bool} (hne : targets ≠ [])
      (ht : ∀ x ∈ targets, Grammatical .expression x) (h : Grammatical .expression t) :
    Grammatical .statement (.assign targets t placed)
  | augAssign {target t : Term} {sign : BinarySign} (ht : Grammatical .expression target)
      (h : Grammatical .expression t) : Grammatical .statement (.augAssign target sign t)
  | annAssign {target hint t : Term} (ht : Grammatical .expression target)
      (hh : Grammatical .expression hint) (h : Grammatical .optional t) :
    Grammatical .statement (.annAssign target hint t)
  | pass : Grammatical .statement .pass
  | breakLoop : Grammatical .statement .breakLoop
  | continueLoop : Grammatical .statement .continueLoop
  | giveBack {t : Term} (h : Grammatical .optional t) : Grammatical .statement (.giveBack t)
  | raise {t : Term} (h : Grammatical .optional t) : Grammatical .statement (.raise t)
  | delete {ts : List Term} (h : ∀ t ∈ ts, Grammatical .expression t) :
    Grammatical .statement (.delete ts)
  | importing {names : List Term} (h : ∀ t ∈ names, Grammatical .imported t) :
    Grammatical .statement (.importing names)
  | importFrom {source : String} {names : List Term} {level : Int}
      (h : ∀ t ∈ names, Grammatical .imported t) :
    Grammatical .statement (.importFrom (.text source) names (.int level))
  | ifStmt {test : Term} {body orElse : List Term} (ht : Grammatical .expression test)
      (hne : body ≠ []) (hb : ∀ t ∈ body, Grammatical .statement t)
      (ho : ∀ t ∈ orElse, Grammatical .statement t) :
    Grammatical .statement (.ifStmt test body orElse)
  | whileLoop {test : Term} {body : List Term} (ht : Grammatical .expression test)
      (hne : body ≠ []) (hb : ∀ t ∈ body, Grammatical .statement t) :
    Grammatical .statement (.whileLoop test body)
  | forLoop {target iterable : Term} {body : List Term} {placed : Bool}
      (ht : Grammatical .expression target) (hi : Grammatical .expression iterable)
      (hne : body ≠ []) (hb : ∀ t ∈ body, Grammatical .statement t) :
    Grammatical .statement (.forLoop target iterable body placed)
  | tryStmt {body handlers finalBody : List Term} (hne : body ≠ [])
      (hb : ∀ t ∈ body, Grammatical .statement t) (hh : ∀ t ∈ handlers, Grammatical .handler t)
      (hf : ∀ t ∈ finalBody, Grammatical .statement t) :
    Grammatical .statement (.tryStmt body handlers finalBody)
  | functionDef {name : String} {args returns : Term} {body : List Term} {placed : Bool}
      (ha : Grammatical .parameters args) (hne : body ≠ [])
      (hb : ∀ t ∈ body, Grammatical .statement t) (hr : Grammatical .optional returns) :
    Grammatical .statement (.functionDef (.text name) args body returns placed)
  | asyncFunctionDef {name : String} {args returns : Term} {body : List Term} {placed : Bool}
      (ha : Grammatical .parameters args) (hne : body ≠ [])
      (hb : ∀ t ∈ body, Grammatical .statement t) (hr : Grammatical .optional returns) :
    Grammatical .statement (.asyncFunctionDef (.text name) args body returns placed)
  | classDef {name : String} {bases body decorators : List Term}
      (hbase : ∀ t ∈ bases, Grammatical .expression t) (hne : body ≠ [])
      (hb : ∀ t ∈ body, Grammatical .statement t)
      (hd : ∀ t ∈ decorators, Grammatical .expression t) :
    Grammatical .statement (.classDef (.text name) bases body decorators)
  -- What is neither.
  | arg {name : String} {hint : Term} (h : Grammatical .optional hint) :
    Grammatical .parameter (.arg (.text name) hint)
  | arguments {args : List Term} (h : ∀ a ∈ args, Grammatical .parameter a) :
    Grammatical .parameters (.arguments args)
  | comprehension {target iterable : Term} {conditions : List Term} {isAsync : Bool}
      (ht : Grammatical .expression target) (hi : Grammatical .expression iterable)
      (hc : ∀ t ∈ conditions, Grammatical .expression t) :
    Grammatical .clause (.comprehension target iterable conditions isAsync)
  | handler {type : Term} {name : Doc} {body : List Term} (ht : Grammatical .optional type)
      (hn : name.isName = true) (hne : body ≠ []) (hb : ∀ t ∈ body, Grammatical .statement t) :
    Grammatical .handler (.handler type name body)
  | imported {name : String} {asname : Doc} (h : asname.isName = true) :
    Grammatical .imported (.imported (.text name) asname)

namespace Grammatical

variable {t : Term}

/-! ## Sorts -/

/-- What stands in the place of an expression is one. -/
theorem sort_expression (h : Grammatical .expression t) : t.sort = .expression := by
  cases h <;> rfl

/-- What stands in the place of a statement is one. -/
theorem sort_statement (h : Grammatical .statement t) : t.sort = .statement := by
  cases h <;> rfl

/-! ## Closure -/

/-- Binding a name keeps an expression an expression. -/
theorem bound (h : Grammatical .expression t) : Grammatical .expression t.bound := by
  cases h with
  | name => exact .name
  | _ => constructor <;> assumption

/-- Parameters know their places already. -/
theorem placed (h : Grammatical .parameter t) : t.placed = .ok t := by
  cases h with
  | arg => rfl

/-- A name that is read. -/
theorem load (id : String) : Grammatical .expression (Term.load id) :=
  .name

theorem textConstant (s : String) : Grammatical .expression (Term.textConstant s) :=
  .constant rfl

/-- A call of a function given by its name. -/
theorem callOf (id : String) {args : List Term} (h : ∀ a ∈ args, Grammatical .expression a) :
    Grammatical .expression (Term.callOf id args) :=
  .call (.load id) h

end Grammatical

end Target

end ProgramTree
