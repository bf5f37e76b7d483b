/-
Expressions that nodes denote.

A node knows what it is by its form and its fields. `Denotes` reads them once and for
all: it says which expression a value holds, so what comes after this file is about
expressions and not about stores. The expressions are variables, literals, operators of
all sorts, chains of comparisons, groups and conditionals.

The conversion of a value makes the term of just the expression that the value denotes
(`Denotes.run_term`). An expression may be deeper than anyone knows, but no tree has
more levels than the store has cells, and that is the depth a conversion is given.
-/
import Mathlib.Data.Fintype.Order
import ProgramTree.Proofs.Core.Soundness

open ProgramTree.Look ProgramTree.Target.Convert

namespace ProgramTree.Target

/-! ## Expressions -/

/-- The operators on truth values. -/
inductive Gate
  | and | or | nand | nor | xor | xnor
deriving DecidableEq, Repr

/-- What a node stands for. A chain has one comparison more than its count, so it is
never empty, and it has as many signs as operands on the right. -/
inductive Expression
  | use (id : String)
  | truth (b : Bool)
  | number (n : Int)
  | binary (sign : BinarySign) (left right : Expression)
  /-- An operator with a sign that the target does not have. -/
  | custom (code : String) (left right : Expression)
  | unary (sign : UnarySign) (operand : Expression)
  | negation (operand : Expression)
  | gate (g : Gate) (left right : Expression)
  | compare (left : Expression) (count : Nat) (signs : Fin (count + 1) → CompareSign)
      (rights : Fin (count + 1) → Expression)
  | group (inner : Expression)
  | choose (test body orElse : Expression)
  /-- A choice without a second branch. -/
  | when (test body : Expression)

namespace Gate

/-- The form of nodes with the operator. -/
def form : Gate → Form
  | .and => .andOp
  | .or => .orOp
  | .nand => .nandOp
  | .nor => .norOp
  | .xor => .xorOp
  | .xnor => .xnorOp

/-- The operator in the target, which has three of the six. -/
def term : Gate → Term → Term → Term
  | .and => logical .and
  | .or => logical .or
  | .nand => fun l r => negated (logical .and l r)
  | .nor => fun l r => negated (logical .or l r)
  | .xor => exclusive
  | .xnor => fun l r => negated (exclusive l r)

/-- The forms of the six are in one line of the schema. -/
theorem schema_form (g : Gate) :
    schema g.form = some (.expression, [.child .lhs .expression, .child .rhs .expression]) := by
  cases g <;> rfl

theorem method?_form (g : Gate) (l r : Term) :
    method? g.form = giving (g.term l r).className (ofOperands g.term) := by
  cases g <;> rfl

end Gate

/-- The function that stands for a sign that the target does not have. -/
def operatorFunction (code : String) : String :=
  "operator_" ++
    Text.replaceChar '|' "or" (Text.replaceChar '&' "and" (Text.replaceChar '@' "at" code))

namespace Expression

/-- The term of an expression. Groups leave nothing behind. -/
def term : Expression → Term
  | use id => Term.load id
  | truth b => .constant (.bool b)
  | number n => .constant (.int n)
  | binary sign l r => .binary l.term sign r.term
  | custom code l r => Term.callOf (operatorFunction code) [l.term, r.term]
  | unary sign x => .unary sign x.term
  | negation x => negated x.term
  | gate g l r => g.term l.term r.term
  | compare l _ signs rights =>
    .compare l.term (List.ofFn signs) (List.ofFn fun i => (rights i).term)
  | group x => x.term
  | choose test body orElse => .conditional test.term body.term orElse.term
  | when test body => .conditional test.term body.term (.constant .null)

/-- The term of an expression is one term. -/
theorem oneTerm_term (e : Expression) : Promise.oneTerm.check e.term = .ok () := by
  induction e with
  | group x ih => exact ih
  | gate g l r => cases g <;> rfl
  | _ => rfl

end Expression

/-! ## Nodes -/

/-- The forms of truth values and whole numbers. -/
def plainLiterals : List Form :=
  .literalBoolean :: integerLiterals

/-- The expression that a value denotes, by the forms of the nodes and what is in their
fields. A branch is a block with one node in it. -/
inductive Denotes (s : Store) : Value → Expression → Prop
  | use {v : Value} {id : String} (hv : s.formOf? v = some .variableUse)
      (hname : run (field v .name) s = .ok (.text id)) : Denotes s v (.use id)
  | truth {v : Value} {g : Form} {b : Bool} (hv : s.formOf? v = some g) (hg : g ∈ plainLiterals)
      (hvalue : run (field v .value) s = .ok (.bool b)) : Denotes s v (.truth b)
  | number {v : Value} {g : Form} {n : Int} (hv : s.formOf? v = some g) (hg : g ∈ plainLiterals)
      (hvalue : run (field v .value) s = .ok (.int n)) : Denotes s v (.number n)
  | binary {v x y : Value} {code : String} {sign : BinarySign} {l r : Expression}
      (hv : s.formOf? v = some .binaryOp) (hcode : run (field v .opCode) s = .ok (.text code))
      (hsign : BinarySign.ofText? code = some sign) (hx : run (field v .lhs) s = .ok x)
      (hy : run (field v .rhs) s = .ok y) (hl : Denotes s x l) (hr : Denotes s y r) :
      Denotes s v (.binary sign l r)
  | custom {v x y : Value} {code : String} {l r : Expression}
      (hv : s.formOf? v = some .binaryOp) (hcode : run (field v .opCode) s = .ok (.text code))
      (hsign : BinarySign.ofText? code = none) (hx : run (field v .lhs) s = .ok x)
      (hy : run (field v .rhs) s = .ok y) (hl : Denotes s x l) (hr : Denotes s y r) :
      Denotes s v (.custom code l r)
  | unary {v x : Value} {code : String} {sign : UnarySign} {e : Expression}
      (hv : s.formOf? v = some .unaryOp) (hcode : run (field v .opCode) s = .ok (.text code))
      (hsign : UnarySign.ofText? code = some sign) (hx : run (field v .operand) s = .ok x)
      (he : Denotes s x e) : Denotes s v (.unary sign e)
  | negation {v x : Value} {e : Expression} (hv : s.formOf? v = some .notOp)
      (hx : run (field v .operand) s = .ok x) (he : Denotes s x e) : Denotes s v (.negation e)
  | gate {v x y : Value} {g : Gate} {l r : Expression} (hv : s.formOf? v = some g.form)
      (hx : run (field v .lhs) s = .ok x) (hy : run (field v .rhs) s = .ok y)
      (hl : Denotes s x l) (hr : Denotes s y r) : Denotes s v (.gate g l r)
  | compare {v x o w : Value} {l : Expression} {count : Nat} {codes : Fin (count + 1) → String}
      {signs : Fin (count + 1) → CompareSign} {ys : Fin (count + 1) → Value}
      {rights : Fin (count + 1) → Expression} (hv : s.formOf? v = some .compareOp)
      (hx : run (field v .left) s = .ok x) (hl : Denotes s x l)
      (ho : run (field v .ops) s = .ok o)
      (hcodes : Contains s o (List.ofFn fun i => .text (codes i)))
      (hsigns : ∀ i, CompareSign.ofText? (codes i) = some (signs i))
      (hw : run (field v .comparators) s = .ok w) (hys : Contains s w (List.ofFn ys))
      (hrights : ∀ i, Denotes s (ys i) (rights i)) : Denotes s v (.compare l count signs rights)
  | group {v x : Value} {e : Expression} (hv : s.formOf? v = some .parenthesizedExpr)
      (hx : run (field v .value) s = .ok x) (he : Denotes s x e) : Denotes s v (.group e)
  | choose {v x b c y z : Value} {k m : Address} {test body orElse : Expression}
      (hv : s.formOf? v = some .ifExpr) (hx : run (field v .condition) s = .ok x)
      (hb : run (field v .thenBranch) s = .ok b) (hy : IsContainer s b k [y])
      (hc : run (field v .elseBranch) s = .ok c) (hz : IsContainer s c m [z])
      (htest : Denotes s x test) (hbody : Denotes s y body) (hor : Denotes s z orElse) :
      Denotes s v (.choose test body orElse)
  | when {v x b y : Value} {k : Address} {test body : Expression}
      (hv : s.formOf? v = some .ifExpr) (hx : run (field v .condition) s = .ok x)
      (hb : run (field v .thenBranch) s = .ok b) (hy : IsContainer s b k [y])
      (hc : run (field v .elseBranch) s = .ok .none)
      (htest : Denotes s x test) (hbody : Denotes s y body) : Denotes s v (.when test body)

/-! ## Conversion -/

variable {s : Store} {v : Value} {d : Nat} {t : Term}

/-- A tree with fewer levels is one with at most more levels. -/
theorem Core.mono {e : Nat} (h : Core s d v) (hde : d ≤ e) : Core s e v := by
  induction hde with
  | refl => exact h
  | @step e _ ih =>
    -- One level more is enough: the levels below have one more as well.
    have hsucc : ∀ d w, Core s d w → Core s (d + 1) w := by
      intro d
      induction d with
      | zero => exact fun w hw => absurd hw id
      | succ d ih => exact fun w hw => hw.step_mono ih
    exact hsucc e v ih

/-- A value is an expression of the fragment with at most so many levels, and converts to
a term at every depth that is not less. -/
structure SettlesAt (s : Store) (d : Nat) (v : Value) (t : Term) : Prop where
  child : Child s (Core s d) .expression v
  run : ∀ e, d ≤ e → run (toDepth e v) s = .ok t

theorem SettlesAt.mono {e : Nat} (h : SettlesAt s d v t) (hde : d ≤ e) : SettlesAt s e v t :=
  ⟨⟨h.child.1.mono hde, h.child.2⟩, fun e' he' => h.run e' (Nat.le_trans hde he')⟩

/-- One level: the form is in the fragment, its requirements are met, and its rule gives
the term at every depth. -/
theorem settlesAt_succ {g : Form} {reqs : List Requirement} {m : Method}
    (hv : s.formOf? v = some g) (hs : schema g = some (.expression, reqs))
    (hmet : ∀ q ∈ reqs, q.Met s (Core s d) v) (hm : method? g = some m)
    (hrule : ∀ e, d ≤ e → Look.run (m.rule (toDepth e) v) s = .ok t)
    (hp : m.promise.check t = .ok ()) : SettlesAt s (d + 1) v t := by
  refine ⟨⟨⟨g, _, reqs, hv, hs, hmet⟩, ?_⟩, ?_⟩
  · rw [roleOf?_eq hv, hs, Option.map_some]
  · intro e he
    obtain ⟨n, hn, rfl⟩ := Option.map_eq_some_iff.mp hv
    obtain ⟨e, rfl⟩ := Nat.exists_eq_add_of_le' (Nat.le_trans (Nat.le_add_left 1 d) he)
    exact run_step hn hm (hrule e (Nat.le_of_succ_le_succ he)) hp

/-- What settles is converted to its term: the depth that a store is given is enough. -/
theorem SettlesAt.run_term (h : SettlesAt s d v t) : Look.run (term v) s = .ok t := by
  obtain ⟨t', -, hrun⟩ := h.child.1.within_cells.converts
  have hsame : t = t' := by
    have hdeep := h.run _ (Nat.le_max_left d s.cells.size)
    rw [hrun _ (Nat.le_max_right d s.cells.size)] at hdeep
    exact (Except.ok.inj hdeep).symm
  rw [Convert.run_term, hsame]
  exact hrun _ (Nat.le_succ _)

theorem literal_of_mem {g : Form} (hg : g ∈ plainLiterals) :
    schema g = some (.expression, [.scalar .value]) ∧
      ∃ missing, method? g = giving "Constant" (valueOr missing) := by
  simp only [plainLiterals, integerLiterals, List.mem_cons, List.not_mem_nil, or_false] at hg
  rcases hg with rfl | rfl | rfl | rfl | rfl | rfl | rfl | rfl | rfl | rfl | rfl <;>
    exact ⟨rfl, _, rfl⟩

/-- A literal settles at once. -/
theorem settlesAt_literal {g : Form} {w : Value} {c : Doc} (hv : s.formOf? v = some g)
    (hg : g ∈ plainLiterals) (hvalue : Look.run (field v .value) s = .ok w)
    (hscalar : w.isScalar = true) (hdoc : Look.run (Look.doc w) s = .ok c) :
    SettlesAt s 1 v (.constant c) := by
  obtain ⟨hschema, missing, hm⟩ := literal_of_mem hg
  refine settlesAt_succ hv hschema ?_ hm ?_ rfl
  · simp only [List.forall_mem_cons]
    exact ⟨⟨w, hvalue, hscalar⟩, List.forall_mem_nil _⟩
  · intro e _
    simp only [valueOr, run_bind, run_field?_of_ok hvalue, ok_bind, hdoc, run_pure]

section Operands

variable {x y : Value} {l r : Term}

/-- The fields of an operator with two operands that settle. -/
theorem met_operands (hx : Look.run (field v .lhs) s = .ok x)
    (hy : Look.run (field v .rhs) s = .ok y) (hl : SettlesAt s d x l) (hr : SettlesAt s d y r) :
    ∀ q ∈ [Requirement.child .lhs .expression, .child .rhs .expression], q.Met s (Core s d) v := by
  simp only [List.forall_mem_cons]
  exact ⟨⟨x, hx, hl.child⟩, ⟨y, hy, hr.child⟩, List.forall_mem_nil _⟩

/-- An operator whose rule makes a term of the two operands. -/
theorem settlesAt_ofOperands {g : Form} {className : String} {make : Term → Term → Term}
    (hv : s.formOf? v = some g)
    (hs : schema g = some (.expression, [.child .lhs .expression, .child .rhs .expression]))
    (hm : method? g = giving className (ofOperands make))
    (hclass : (make l r).className = className) (hx : Look.run (field v .lhs) s = .ok x)
    (hy : Look.run (field v .rhs) s = .ok y) (hl : SettlesAt s d x l) (hr : SettlesAt s d y r) :
    SettlesAt s (d + 1) v (make l r) := by
  refine settlesAt_succ hv hs (met_operands hx hy hl hr) hm ?_ ?_
  · intro e he
    have hfields : ∀ f ∈ [Field.lhs, .rhs], ∃ w, Look.run (field v f) s = .ok w := by simp [hx, hy]
    rw [ofOperands, run_requiring hfields]
    simp only [run_bind, run_visitField, hx, hy, ok_bind, hl.run e he, hr.run e he, run_pure]
  · rw [check_oneOf_eq_ok, hclass]
    exact List.mem_singleton_self _

/-- The fields of a binary operator. -/
theorem settlesAt_binary {code : String} (hv : s.formOf? v = some .binaryOp)
    (hcode : Look.run (field v .opCode) s = .ok (.text code))
    (hx : Look.run (field v .lhs) s = .ok x) (hy : Look.run (field v .rhs) s = .ok y)
    (hl : SettlesAt s d x l) (hr : SettlesAt s d y r) :
    SettlesAt s (d + 1) v (match BinarySign.ofText? code with
      | some sign => .binary l sign r
      | none => Term.callOf (operatorFunction code) [l, r]) := by
  have hmet : ∀ q ∈ [Requirement.text .opCode, .child .lhs .expression, .child .rhs .expression],
      q.Met s (Core s d) v :=
    List.forall_mem_cons.mpr ⟨⟨code, hcode⟩, met_operands hx hy hl hr⟩
  have hfields : ∀ f ∈ [Field.lhs, .rhs, .opCode], ∃ w, Look.run (field v f) s = .ok w := by
    simp [hx, hy, hcode]
  have hname : Look.run (operatorName (.text code)) s = .ok (operatorFunction code) := rfl
  have hrule : ∀ e, d ≤ e → Look.run (binary (toDepth e) v) s =
      .ok (match BinarySign.ofText? code with
        | some sign => .binary l sign r
        | none => Term.callOf (operatorFunction code) [l, r]) := by
    intro e he
    rw [binary, run_requiring hfields]
    simp only [run_bind, hcode, ok_bind, run_signOf_text, run_visitField, hx, hy, hl.run e he,
      hr.run e he]
    cases BinarySign.ofText? code with
    | some sign => rfl
    | none => simp only [run_bind, hname, ok_bind, run_pure]
  refine settlesAt_succ hv rfl hmet rfl hrule ?_
  cases BinarySign.ofText? code <;> rfl

/-- A walk over the operands of a chain, or over its signs. The induction is on how many
there are. -/
theorem run_forEach_ofFn {β : Type} {w : Value} {count : Nat} {ys : Fin count → Value}
    {outcomes : Fin count → β} {body : Value → Look β} (h : Contains s w (List.ofFn ys))
    (hbody : ∀ i, Look.run (body (ys i)) s = .ok (outcomes i)) :
    Look.run (forEach w body) s = .ok (List.ofFn outcomes) := by
  rw [h.run_forEach]
  clear h
  induction count with
  | zero => rfl
  | succ count ih =>
    have hrest := ih fun i => hbody i.succ
    rw [List.ofFn_succ, List.ofFn_succ, List.mapM_cons, hbody 0, hrest]
    rfl

/-- The signs of a chain of comparisons. -/
theorem run_signs {o : Value} {count : Nat} {codes : Fin count → String}
    {signs : Fin count → CompareSign} (hcodes : Contains s o (List.ofFn fun i => .text (codes i)))
    (hsigns : ∀ i, CompareSign.ofText? (codes i) = some (signs i)) :
    Look.run (forEach o fun op => do return (← signOf CompareSign.ofText? op).getD .eq) s =
      .ok (List.ofFn signs) := by
  refine run_forEach_ofFn hcodes fun i => ?_
  simp only [run_bind, run_signOf_text, ok_bind, hsigns i, Option.getD_some, run_pure]

/-- A branch with one node that settles. -/
theorem run_branch_of_settlesAt {b : Value} {k : Address} {f : Field} {e : Nat}
    (hb : Look.run (field v f) s = .ok b) (hx : IsContainer s b k [x]) (hl : SettlesAt s d x l)
    (he : d ≤ e) : Look.run (branch (toDepth e) v f) s = .ok l := by
  have htrue : Look.run (truthy b) s = .ok true := (Contains.container hx).run_truthy
  rw [run_branch hb htrue hx]
  exact hl.run e he

end Operands

namespace Denotes

variable {e : Expression}

/-- **Settling.** From some depth on, a value converts to the term of what it denotes. The
induction is on what it denotes; the operands of a node have depths of their own, and the
largest of them serves them all. -/
theorem settles (h : Denotes s v e) : ∃ d, SettlesAt s d v e.term := by
  induction h with
  | @use v id hv hname =>
    refine ⟨1, settlesAt_succ hv rfl ?_ rfl ?_ rfl⟩
    · simp only [List.forall_mem_cons]
      exact ⟨⟨id, hname⟩, List.forall_mem_nil _⟩
    · intro e _
      simp only [variableUse, run_bind, run_field?_of_ok hname, ok_bind, run_doc_text, run_pure]
      rfl
  | truth hv hg hvalue => exact ⟨1, settlesAt_literal hv hg hvalue rfl rfl⟩
  | number hv hg hvalue => exact ⟨1, settlesAt_literal hv hg hvalue rfl rfl⟩
  | binary hv hcode hsign hx hy _ _ ihl ihr | custom hv hcode hsign hx hy _ _ ihl ihr =>
    obtain ⟨dl, hl⟩ := ihl
    obtain ⟨dr, hr⟩ := ihr
    have hop := settlesAt_binary hv hcode hx hy (hl.mono (Nat.le_max_left dl dr))
      (hr.mono (Nat.le_max_right dl dr))
    rw [hsign] at hop
    exact ⟨_, hop⟩
  | @unary v x code sign e hv hcode hsign hx _ ih =>
    obtain ⟨d, he⟩ := ih
    refine ⟨d + 1, settlesAt_succ hv rfl ?_ rfl ?_ rfl⟩
    · simp only [List.forall_mem_cons]
      exact ⟨⟨code, sign, hcode, hsign⟩, ⟨x, hx, he.child⟩, List.forall_mem_nil _⟩
    · intro k hk
      have hfields : ∀ f ∈ [Field.opCode, .operand], ∃ w, Look.run (field v f) s = .ok w := by
        simp [hcode, hx]
      rw [Convert.unary, run_requiring hfields]
      simp only [run_bind, hcode, ok_bind, run_signOf_text, hsign, run_visitField, hx, he.run k hk,
        run_pure]
      rfl
  | @negation v x e hv hx _ ih =>
    obtain ⟨d, he⟩ := ih
    refine ⟨d + 1, settlesAt_succ hv rfl ?_ rfl ?_ rfl⟩
    · simp only [List.forall_mem_cons]
      exact ⟨⟨x, hx, he.child⟩, List.forall_mem_nil _⟩
    · intro k hk
      have hfields : ∀ f ∈ [Field.operand], ∃ w, Look.run (field v f) s = .ok w := by simp [hx]
      rw [Convert.negation, run_requiring hfields]
      simp only [run_bind, run_visitField, hx, ok_bind, he.run k hk, run_pure]
      rfl
  | @gate v x y g l r hv hx hy _ _ ihl ihr =>
    obtain ⟨dl, hl⟩ := ihl
    obtain ⟨dr, hr⟩ := ihr
    exact ⟨_, settlesAt_ofOperands hv g.schema_form (g.method?_form l.term r.term) rfl hx hy
      (hl.mono (Nat.le_max_left dl dr)) (hr.mono (Nat.le_max_right dl dr))⟩
  | @compare v x o w l count codes signs ys rights hv hx _ ho hcodes hsigns hw hys _ ihl ihr =>
    obtain ⟨dl, hl⟩ := ihl
    choose dr hr using ihr
    obtain ⟨bound, hbound⟩ := Finite.exists_le dr
    have hl' := hl.mono (Nat.le_max_left dl bound)
    have hr' := fun i => (hr i).mono (Nat.le_trans (hbound i) (Nat.le_max_right dl bound))
    refine ⟨max dl bound + 1, settlesAt_succ hv rfl ?_ rfl ?_ rfl⟩
    · simp only [List.forall_mem_cons]
      refine ⟨⟨x, hx, hl'.child⟩, ⟨o, _, w, _, ho, hcodes, ?_, hw, hys, ?_, ?_⟩,
        List.forall_mem_nil _⟩
      · intro c hc
        obtain ⟨i, rfl⟩ := List.mem_ofFn.mp hc
        exact ⟨codes i, rfl⟩
      · intro y hy
        obtain ⟨i, rfl⟩ := List.mem_ofFn.mp hy
        exact (hr' i).child
      · rw [List.length_ofFn, List.length_ofFn]
    · intro k hk
      have hfields : ∀ f ∈ [Field.left, .ops, .comparators],
          ∃ w, Look.run (field v f) s = .ok w := by simp [hx, ho, hw]
      rw [Convert.compare, run_requiring hfields]
      simp only [run_bind, ho, ok_bind, run_signs hcodes hsigns, hw, run_visitField, hx,
        hl'.run k hk, visitEach, run_forEach_ofFn hys fun i => (hr' i).run k hk, run_pure]
      rfl
  | @group v x e hv hx _ ih =>
    obtain ⟨d, he⟩ := ih
    refine ⟨d + 1, settlesAt_succ hv rfl ?_ rfl ?_ e.oneTerm_term⟩
    · simp only [List.forall_mem_cons]
      exact ⟨⟨x, hx, he.child⟩, List.forall_mem_nil _⟩
    · intro k hk
      have hfields : ∀ f ∈ [Field.value], ∃ w, Look.run (field v f) s = .ok w := by simp [hx]
      rw [ofValue, run_requiring hfields]
      simp only [run_bind, run_visitField, hx, ok_bind, he.run k hk, run_pure]
      rfl
  | @choose v x b c y z p q test body orElse hv hx hb hy hc hz _ _ _ iht ihb iho =>
    obtain ⟨dt, ht⟩ := iht
    obtain ⟨db, hbody⟩ := ihb
    obtain ⟨dor, hor⟩ := iho
    have ht' := ht.mono (Nat.le_max_left dt (max db dor))
    have hbody' := hbody.mono (Nat.le_trans (Nat.le_max_left db dor) (Nat.le_max_right dt _))
    have hor' := hor.mono (Nat.le_trans (Nat.le_max_right db dor) (Nat.le_max_right dt _))
    refine ⟨max dt (max db dor) + 1, settlesAt_succ hv rfl ?_ rfl ?_ rfl⟩
    · simp only [List.forall_mem_cons]
      exact ⟨⟨x, hx, ht'.child⟩, ⟨b, p, y, hb, hy, hbody'.child⟩,
        .inr ⟨c, q, z, hc, hz, hor'.child⟩, List.forall_mem_nil _⟩
    · intro k hk
      have hfields : ∀ f ∈ [Field.condition], ∃ w, Look.run (field v f) s = .ok w := by simp [hx]
      rw [conditional, run_requiring hfields]
      simp only [run_bind, run_branch_of_settlesAt hb hy hbody' hk,
        run_branch_of_settlesAt hc hz hor' hk, ok_bind, run_visitField, hx, ht'.run k hk, run_pure]
      rfl
  | @when v x b y p test body hv hx hb hy hc _ _ iht ihb =>
    obtain ⟨dt, ht⟩ := iht
    obtain ⟨db, hbody⟩ := ihb
    have ht' := ht.mono (Nat.le_max_left dt db)
    have hbody' := hbody.mono (Nat.le_max_right dt db)
    refine ⟨max dt db + 1, settlesAt_succ hv rfl ?_ rfl ?_ rfl⟩
    · simp only [List.forall_mem_cons]
      exact ⟨⟨x, hx, ht'.child⟩, ⟨b, p, y, hb, hy, hbody'.child⟩, .inl hc, List.forall_mem_nil _⟩
    · intro k hk
      have hfields : ∀ f ∈ [Field.condition], ∃ w, Look.run (field v f) s = .ok w := by simp [hx]
      have hnone : Look.run (truthy .none) s = .ok false := rfl
      have horElse : Look.run (branch (toDepth k) v .elseBranch) s = .ok (.constant .null) := by
        simp only [branch, run_bind, run_truthyField?_of_ok hc hnone, ok_bind, Bool.false_eq_true,
          if_false, run_pure]
      rw [conditional, run_requiring hfields]
      simp only [run_bind, run_branch_of_settlesAt hb hy hbody' hk, horElse, ok_bind,
        run_visitField, hx, ht'.run k hk, run_pure]
      rfl

/-- **Conversion.** A value is converted to the term of what it denotes. -/
theorem run_term (h : Denotes s v e) : Look.run (Look.term v) s = .ok e.term := by
  obtain ⟨d, hd⟩ := h.settles
  exact hd.run_term

end Denotes

end ProgramTree.Target
