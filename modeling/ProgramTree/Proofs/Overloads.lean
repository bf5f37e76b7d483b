/-
What the overloaded operators mean.

Writing an operator between two nodes makes a third one. A formula is what was written,
and `Assembled` follows the making: variables and numbers are constructed, operators are
written between values that are there already, as often as one likes, and other things
happen in between. Nothing that is made later changes what was made before, so every
value goes on to spell its formula.

The arithmetic signs are those of the target, and are converted to it. A comparison is
not: it is converted to the call of a function that has its name from the sign, and the
formula keeps its meaning where such a function compares. The power is the exception
among the arithmetic signs. Its node has the code of another operator.
-/
import ProgramTree.Proofs.Meaning

open ProgramTree.Look ProgramTree.Target.Convert

namespace ProgramTree.Target

/-! ## Formulas -/

/-- The arithmetic operators that can be written between nodes. -/
inductive Arithmetic
  | add | sub | mult | div | floorDiv | mod | pow
deriving DecidableEq, Repr

/-- The sign that is written. -/
def Arithmetic.sign : Arithmetic → BinarySign
  | .add => .add
  | .sub => .sub
  | .mult => .mult
  | .div => .div
  | .floorDiv => .floorDiv
  | .mod => .mod
  | .pow => .pow

/-- The sign that the node has. -/
def Arithmetic.stored : Arithmetic → BinarySign
  | .pow => .bitXor
  | o => o.sign

/-- The operators that can be written between nodes. -/
inductive Operator
  | arithmetic (o : Arithmetic)
  | comparison (c : Comparison)
deriving DecidableEq, Repr

namespace Operator

/-- The operator as it is written. -/
def text : Operator → String
  | arithmetic o => o.sign.text
  | comparison c => c.sign

/-- The code of the node that an operator makes. -/
def code : Operator → String
  | arithmetic o => o.stored.text
  | comparison c => c.sign

end Operator

/-- What is written with the operators. -/
inductive Formula
  | use (id : String)
  | number (n : Int)
  | operation (op : Operator) (left right : Formula)
deriving Repr

/-- The sign of a comparison in the target. -/
def compareSign : Comparison → CompareSign
  | .equal => .eq
  | .unequal => .notEq
  | .less => .lt
  | .greater => .gt
  | .atMost => .ltE
  | .atLeast => .gtE

/-- The name of the function that a comparison is converted to. -/
def comparisonFunction (c : Comparison) : String :=
  "operator_" ++ c.sign

namespace Formula

/-- The comparisons in a formula. -/
def comparisons : Formula → List Comparison
  | use _ | number _ => []
  | operation (.arithmetic _) l r => l.comparisons ++ r.comparisons
  | operation (.comparison c) l r => c :: l.comparisons ++ r.comparisons

/-- The formula has no powers. -/
def PowerFree : Formula → Prop
  | use _ | number _ => True
  | operation op l r => op ≠ .arithmetic .pow ∧ l.PowerFree ∧ r.PowerFree

/-- What the nodes of a formula denote. -/
def expression : Formula → Expression
  | use id => .use id
  | number n => .number n
  | operation (.arithmetic o) l r => .binary o.stored l.expression r.expression
  | operation (.comparison c) l r => .custom c.sign l.expression r.expression

section Evaluation

variable {m : Type → Type} [Monad m] (I : Meaning m)

/-- The value of a formula, by what its signs say. -/
def eval : Formula → m I.Val
  | use id => I.variable id
  | number n => do
    I.meet (.number n)
    return I.ofInt n
  | operation (.arithmetic o) l r => do
    let a ← l.eval
    let b ← r.eval
    I.binary o.sign a b
  | operation (.comparison c) l r => do
    let a ← l.eval
    let b ← r.eval
    return I.ofBool (← I.compare (compareSign c) a b)

/-- The value of a formula with calls of functions in the place of the comparisons. -/
def evalCalling : Formula → m I.Val
  | use id => I.variable id
  | number n => do
    I.meet (.number n)
    return I.ofInt n
  | operation (.arithmetic o) l r => do
    let a ← l.evalCalling
    let b ← r.evalCalling
    I.binary o.sign a b
  | operation (.comparison c) l r => do
    let f ← I.variable (comparisonFunction c)
    let a ← l.evalCalling
    let b ← r.evalCalling
    I.call f [a, b]

end Evaluation

end Formula

/-- The function of a comparison is there, and it compares. -/
def Meaning.Provides {m : Type → Type} [Monad m] (I : Meaning m) (c : Comparison) : Prop :=
  ∃ f, I.variable (comparisonFunction c) = pure f ∧
    ∀ a b, I.call f [a, b] = do return I.ofBool (← I.compare (compareSign c) a b)

section Agreement

variable {m : Type → Type} [Monad m] {I : Meaning m} {φ : Formula}

namespace Formula

/-- No operator of a formula asks for truth values. -/
theorem booleanOperands_expression (φ : Formula) : φ.expression.BooleanOperands I := by
  induction φ with
  | use id => trivial
  | number n => trivial
  | operation op l r ihl ihr =>
    cases op with
    | arithmetic o => exact ⟨ihl, ihr⟩
    | comparison c => exact ⟨ihl, ihr⟩

/-- Where there are no powers, the nodes of a formula mean the formula with calls in the
place of the comparisons. -/
theorem eval_expression (h : φ.PowerFree) : φ.expression.eval I = φ.evalCalling I := by
  induction φ with
  | use id => rfl
  | number n => rfl
  | operation op l r ihl ihr =>
    obtain ⟨hop, hl, hr⟩ := h
    cases op with
    | arithmetic o =>
      have hstored : o.stored = o.sign := by
        cases o with
        | pow => exact absurd rfl hop
        | _ => rfl
      rw [expression, Expression.eval, hstored, ihl hl, ihr hr, evalCalling]
    | comparison c =>
      have hname : operatorFunction c.sign = comparisonFunction c := by
        cases c <;> decide
      rw [expression, Expression.eval, hname, ihl hl, ihr hr, evalCalling]

/-- Calls of functions that compare are comparisons. -/
theorem evalCalling_eq_eval [LawfulMonad m] (h : ∀ c ∈ φ.comparisons, I.Provides c) :
    φ.evalCalling I = φ.eval I := by
  induction φ with
  | use id => rfl
  | number n => rfl
  | operation op l r ihl ihr =>
    cases op with
    | arithmetic o =>
      rw [comparisons, List.forall_mem_append] at h
      rw [evalCalling, ihl h.1, ihr h.2, eval]
    | comparison c =>
      rw [comparisons, List.cons_append, List.forall_mem_cons, List.forall_mem_append] at h
      obtain ⟨⟨f, hf, hcall⟩, hl, hr⟩ := h
      -- Finding the function does nothing else, so the operands are what comes first.
      rw [evalCalling, hf, pure_bind, ihl hl, ihr hr, eval]
      refine bind_congr fun a => bind_congr fun b => ?_
      rw [hcall]

end Formula

end Agreement

/-! ## Nodes of formulas -/

/-- The nodes of a formula, as the operators make them. -/
inductive Spells (s : Store) : Value → Formula → Prop
  | use {a : Address} {id : String}
      (h : s.Pinned a fun n => n.Has .variableUse [(.name, .text id)]) : Spells s (.ref a) (.use id)
  | number {a : Address} {g : Form} {n : Int} (hg : g ∈ integerLiterals)
      (h : s.Pinned a fun n' => n'.Has g [(.value, .int n)]) : Spells s (.ref a) (.number n)
  | operation {a : Address} {op : Operator} {x y : Value} {l r : Formula}
      (h : s.Pinned a fun n => n.Has .binaryOp (Build.operatorFields (.text op.code) x y))
      (hl : Spells s x l) (hr : Spells s y r) : Spells s (.ref a) (.operation op l r)

/-- The forms of nodes that spell formulas. -/
def spellingForms : List Form :=
  .variableUse :: .binaryOp :: integerLiterals

theorem isA_dataTypeOps {g : Form} (hg : g ∈ spellingForms) : g.isA .dataTypeOps = true := by
  have hall : ∀ g ∈ spellingForms, g.isA .dataTypeOps = true := by decide
  exact hall g hg

/-- None of the forms refines another one. -/
theorem not_refines {g k : Form} (hg : g ∈ spellingForms) (hk : k ∈ spellingForms) :
    (k ≠ g && k.isA g) = false := by
  have hall : ∀ g ∈ spellingForms, ∀ k ∈ spellingForms, (k ≠ g && k.isA g) = false := by decide
  exact hall g hg k hk

section Fields

variable {s : Store} {a : Address} {form : Form} {fields : List (Field × Value)}

theorem formOf?_of_pinned (h : s.Pinned a fun n => n.Has form fields) :
    s.formOf? (.ref a) = some form := by
  obtain ⟨n, hn, hform, -⟩ := h
  rw [← hform]
  exact congrArg (Option.map Node.form) hn

/-- A field that was set is read, unless its form computes it. -/
theorem run_field_of_pinned {f : Field} {w : Value} (h : s.Pinned a fun n => n.Has form fields)
    (hcomputed : form.computed? f = none) (hmem : (f, w) ∈ fields) :
    run (field (.ref a) f) s = .ok w := by
  obtain ⟨n, hn, hform, hfields⟩ := h
  rw [← hform] at hcomputed
  exact run_field_of_get? hn hcomputed (hfields (f, w) hmem)

end Fields

namespace Spells

variable {s s' : Store} {v x y : Value} {φ l r : Formula}

/-- What is kept goes on to spell its formula. -/
theorem mono (h : Spells s v φ) (hkept : s.Kept s') : Spells s' v φ := by
  induction h with
  | use h => exact .use (h.kept hkept)
  | number hg h => exact .number hg (h.kept hkept)
  | operation h _ _ ihl ihr => exact .operation (h.kept hkept) ihl ihr

/-- What spells a formula is a node of one of a few forms. -/
theorem exists_node (h : Spells s v φ) : ∃ n, s.nodeOf? v = some n ∧ n.form ∈ spellingForms := by
  cases h with
  | use h =>
    obtain ⟨n, hn, hform, -⟩ := h
    exact ⟨n, hn, by rw [hform]; decide⟩
  | number hg h =>
    obtain ⟨n, hn, hform, -⟩ := h
    exact ⟨n, hn, by rw [hform]; exact List.mem_cons_of_mem _ (List.mem_cons_of_mem _ hg)⟩
  | operation h _ _ =>
    obtain ⟨n, hn, hform, -⟩ := h
    exact ⟨n, hn, by rw [hform]; decide⟩

/-- What spells a formula denotes its expression. -/
theorem denotes (h : Spells s v φ) : Denotes s v φ.expression := by
  induction h with
  | use h => exact .use (formOf?_of_pinned h) (run_field_of_pinned h rfl (by simp))
  | @number a g n hg h =>
    have hplain : ∀ g ∈ integerLiterals, g.computed? .value = none := by decide
    have hvalue := run_field_of_pinned h (hplain g hg) (List.mem_singleton_self _)
    exact .number (formOf?_of_pinned h) (List.mem_cons_of_mem _ hg) hvalue
  | @operation a op x y l r h _ _ ihl ihr =>
    have hform := formOf?_of_pinned h
    have hcode : run (field (.ref a) .opCode) s = .ok (.text op.code) :=
      run_field_of_pinned h rfl (by simp [Build.operatorFields])
    have hx : run (field (.ref a) .lhs) s = .ok x :=
      run_field_of_pinned h rfl (by simp [Build.operatorFields])
    have hy : run (field (.ref a) .rhs) s = .ok y :=
      run_field_of_pinned h rfl (by simp [Build.operatorFields])
    -- The codes of the arithmetic operators are signs of the target, the others are not.
    cases op with
    | arithmetic o => exact .binary hform hcode (by cases o <;> decide) hx hy ihl ihr
    | comparison c => exact .custom hform hcode (by cases c <;> decide) hx hy ihl ihr

/-- The operators apply to what spells a formula. -/
theorem look_overloads (h : Spells s v φ) : Build.look (Build.overloads v) s = (.ok true, s) := by
  obtain ⟨n, hn, hform⟩ := h.exists_node
  rw [Build.overloads, (still_isA v _).look_eq, run_isA, Store.formOf?, hn, Option.map_some,
    Option.any_some, isA_dataTypeOps hform]

/-- The right operand never refines the left one, so a comparison is not turned around. -/
theorem look_asksRight (hx : Spells s x l) (hy : Spells s y r) :
    Build.look (Build.asksRight x y) s = (.ok false, s) := by
  obtain ⟨m, hm, hleft⟩ := hx.exists_node
  obtain ⟨n, hn, hright⟩ := hy.exists_node
  have hrun : run (Build.asksRight x y) s =
      .ok (!m.form.isA .dataTypeOps || (n.form ≠ m.form && n.form.isA m.form)) := by
    simp [Build.asksRight, Build.overloads, Store.formOf?, hm, hn, isA_dataTypeOps hright]
  rw [(Build.still_asksRight x y).look_eq, hrun, isA_dataTypeOps hleft, not_refines hleft hright]
  rfl

/-- An operator between two formulas makes a node with its code. -/
theorem applyBinary_eq {op : Operator} {o : Overload} (ho : Overload.ofSign? op.text = some o)
    (hx : Spells s x l) (hy : Spells s y r) :
    Build.applyBinary o x y s = Build.newBinary op.code x y s := by
  cases op with
  | arithmetic k =>
    obtain ⟨sign, rfl⟩ : ∃ sign, o = .arithmetic sign k.stored.text := by
      cases k <;> exact ⟨_, (Option.some.inj ho).symm⟩
    exact Build.andThen_of_eq hx.look_overloads
  | comparison c =>
    obtain rfl : o = .comparison c := by
      cases c <;> exact (Option.some.inj ho).symm
    exact (Build.andThen_of_eq (hx.look_asksRight hy)).trans (Build.andThen_of_eq hx.look_overloads)

end Spells

/-! ## Making formulas -/

/-- Values that were made together with the formulas that they were made for. A variable
and a number may be constructed with any other arguments, and whatever else leaves the
nodes as they are may happen in between. -/
inductive Assembled : Store → List (Value × Formula) → Prop
  | start (s : Store) : Assembled s []
  | use {s s' : Store} {made : List (Value × Formula)} {given : List (Field × Value)}
      {args : Arguments} {a : Address} {id : String} (h : Assembled s made)
      (hargs : Arguments.fill .variableUse given = .ok args) (hname : args.get .name = .text id)
      (hmake : Build.construct .variableUse [] given s = (.ok a, s')) :
      Assembled s' ((.ref a, .use id) :: made)
  | number {s s' : Store} {made : List (Value × Formula)} {g : Form}
      {given : List (Field × Value)} {args : Arguments} {a : Address} {n : Int}
      (h : Assembled s made) (hg : g ∈ integerLiterals)
      (hargs : Arguments.fill g given = .ok args) (hvalue : args.get .value = .int n)
      (hmake : Build.construct g [] given s = (.ok a, s')) :
      Assembled s' ((.ref a, .number n) :: made)
  | operation {s s' : Store} {made : List (Value × Formula)} {op : Operator} {o : Overload}
      {x y v : Value} {l r : Formula} (h : Assembled s made) (hx : (x, l) ∈ made)
      (hy : (y, r) ∈ made) (ho : Overload.ofSign? op.text = some o)
      (hmake : Build.applyBinary o x y s = (.ok v, s')) :
      Assembled s' ((v, .operation op l r) :: made)
  | other {s s' : Store} {made : List (Value × Formula)} (h : Assembled s made)
      (hkept : s.Kept s') : Assembled s' made

/-- One step: what was made before stays, and what is made spells its formula. -/
theorem spells_cons {s s' : Store} {made : List (Value × Formula)} {v : Value} {φ : Formula}
    (h : ∀ p ∈ made, Spells s p.1 p.2) (hkept : s.Kept s') (hnew : Spells s' v φ) :
    ∀ p ∈ (v, φ) :: made, Spells s' p.1 p.2 := by
  rw [List.forall_mem_cons]
  exact ⟨hnew, fun p hp => (h p hp).mono hkept⟩

/-- **Formulas.** Everything that was made spells its formula. The induction is on the
making. -/
theorem Assembled.spells {s : Store} {made : List (Value × Formula)} (h : Assembled s made) :
    ∀ p ∈ made, Spells s p.1 p.2 := by
  induction h with
  | start s => exact List.forall_mem_nil _
  | @use s s' made given args a id _ hargs hname hmake ih =>
    obtain ⟨hkept, hmade⟩ :=
      Build.construct_eq_ok hargs (fun a => Build.fills_variableUse a args) hmake
    rw [hname] at hmade
    exact spells_cons ih hkept (.use hmade)
  | @number s s' made g given args a n _ hg hargs hvalue hmake ih =>
    obtain ⟨hkept, hmade⟩ :=
      Build.construct_eq_ok hargs (fun a => Build.fills_integer hg a args) hmake
    rw [hvalue] at hmade
    exact spells_cons ih hkept (.number hg hmade)
  | @operation s s' made op o x y v l r _ hx hy ho hmake ih =>
    -- The operands spell their formulas, so the operator makes a node of its code for them.
    have hl := ih _ hx
    have hr := ih _ hy
    rw [hl.applyBinary_eq ho hr] at hmake
    obtain ⟨hkept, a, rfl, hmade⟩ := Build.newBinary_eq_ok hmake
    exact spells_cons ih hkept (.operation hmade (hl.mono hkept) (hr.mono hkept))
  | other _ hkept ih => exact fun p hp => (ih p hp).mono hkept

/-- A formula that was made is converted to the term of its nodes. -/
theorem Assembled.run_term {s : Store} {made : List (Value × Formula)} {v : Value} {φ : Formula}
    (h : Assembled s made) (hv : (v, φ) ∈ made) : run (term v) s = .ok φ.expression.term :=
  (h.spells _ hv).denotes.run_term

/-- **Overloaded operators.** A formula without powers that was made with the operators is
converted, and the term has the meaning of the formula with a call in the place of each
comparison: it gives the same value, and evaluation meets the same leaves in the same
order. Where the functions of all comparisons in the formula are there and compare, the
term has the meaning of the formula itself; so it has if there are no comparisons. -/
theorem overloads_keep_meaning {s : Store} {made : List (Value × Formula)} {v : Value}
    {φ : Formula} (h : Assembled s made) (hv : (v, φ) ∈ made) (hpower : φ.PowerFree) :
    ∃ t, run (term v) s = .ok t ∧
      ∀ (m : Type → Type) [Monad m] [LawfulMonad m] (I : Meaning m),
        t.eval I = φ.evalCalling I ∧
          ((∀ c ∈ φ.comparisons, I.Provides c) → t.eval I = φ.eval I) := by
  refine ⟨_, h.run_term hv, fun m _ _ I => ?_⟩
  have hcalling : φ.expression.term.eval I = φ.evalCalling I := by
    rw [φ.expression.eval_term φ.booleanOperands_expression, Formula.eval_expression hpower]
  refine ⟨hcalling, fun hprovided => ?_⟩
  rw [hcalling, Formula.evalCalling_eq_eval hprovided]

/-! ## Formulas that were made -/

/-- A formula with a comparison among its operations, and with nodes that are used more than
once. -/
def halved : Formula :=
  .operation (.arithmetic .add)
    (.operation (.comparison .less)
      (.operation (.arithmetic .floorDiv) (.use "x") (.number 2)) (.use "x"))
    (.operation (.arithmetic .mod) (.use "x") (.number 2))

/-- How it is made. -/
def halving : Build Value := do
  let x ← Build.construct .variableUse [] [(.name, .text "x")]
  let two ← Build.construct .literalInt32 [] [(.value, .int 2)]
  let half ← Build.applyBinary (.arithmetic "//" "//") (.ref x) (.ref two)
  let less ← Build.applyBinary (.comparison .less) half (.ref x)
  let rest ← Build.applyBinary (.arithmetic "%" "%") (.ref x) (.ref two)
  Build.applyBinary (.arithmetic "+" "+") less rest

/-- The store after that. -/
def halvingStore : Store :=
  (halving Store.initial).2

/-- The formula was made, wherever its nodes are. -/
theorem assembled_halving {v : Value} {s : Store} (h : halving Store.initial = (.ok v, s)) :
    ∃ made, Assembled s made ∧ (v, halved) ∈ made := by
  obtain ⟨x, s₁, hx, h⟩ := Build.andThen_eq_ok.mp h
  obtain ⟨two, s₂, htwo, h⟩ := Build.andThen_eq_ok.mp h
  obtain ⟨half, s₃, hhalf, h⟩ := Build.andThen_eq_ok.mp h
  obtain ⟨less, s₄, hless, h⟩ := Build.andThen_eq_ok.mp h
  obtain ⟨rest, s₅, hrest, h⟩ := Build.andThen_eq_ok.mp h
  have h₁ : Assembled s₁ [(.ref x, .use "x")] := .use (.start _) rfl rfl hx
  have h₂ : Assembled s₂ ((.ref two, .number 2) :: _) := .number h₁ (by decide) rfl rfl htwo
  have h₃ : Assembled s₃ ((half, .operation (.arithmetic .floorDiv) (.use "x") (.number 2)) :: _) :=
    .operation h₂ (by simp) (by simp) rfl hhalf
  have h₄ : Assembled s₄ ((less, .operation (.comparison .less) _ (.use "x")) :: _) :=
    .operation h₃ (List.mem_cons_self ..) (by simp) rfl hless
  have h₅ : Assembled s₅ ((rest, .operation (.arithmetic .mod) (.use "x") (.number 2)) :: _) :=
    .operation h₄ (by simp) (by simp) rfl hrest
  have h₆ : Assembled s ((v, halved) :: _) :=
    .operation h₅ (List.mem_cons_of_mem _ (List.mem_cons_self ..)) (List.mem_cons_self ..) rfl h
  exact ⟨_, h₆, List.mem_cons_self ..⟩

/-- Integers, with the comparisons as functions that can be called by their names. -/
def comparing (env : String → Option Int) : Meaning Option where
  Val := Int ⊕ Comparison
  ofBool b := .inl (if b then 1 else 0)
  ofInt n := .inl n
  nothing := .inl 0
  isTrue a := a ≠ .inl 0
  isTrue_ofBool b := by cases b <;> rfl
  meet _ := some ()
  read id :=
    match [Comparison.equal, .unequal, .less, .greater, .atMost, .atLeast].find? fun c =>
      comparisonFunction c = id with
    | some c => some (.inr c)
    | none => .inl <$> env id
  binary sign a b :=
    match a, b with
    | .inl a, .inl b => .inl <$> integerBinary sign a b
    | _, _ => none
  binary_bitXor a b := by cases a <;> cases b <;> rfl
  signed _ _ := none
  compare sign a b :=
    match a, b with
    | .inl a, .inl b => integerCompare sign a b
    | _, _ => none
  call f args :=
    match f, args with
    | .inr c, [.inl a, .inl b] => do
      return .inl (if ← integerCompare (compareSign c) a b then 1 else 0)
    | _, _ => none
  stuck := none

theorem provides_comparing (env : String → Option Int) (c : Comparison) :
    (comparing env).Provides c := by
  refine ⟨.inr c, ?_, ?_⟩
  · cases c <;> rfl
  · intro a b
    cases a with
    | inl a =>
      cases b with
      | inl b => rfl
      | inr d => rfl
    | inr d => rfl

theorem halving_fst : (halving Store.initial).1 = .ok (.ref 35) := by
  decide +kernel

/-- Where `x` is minus seven, its half is greater and its rest is one. -/
theorem halved_keeps_value : ∃ made, Assembled halvingStore made ∧ (.ref 35, halved) ∈ made ∧
    halved.PowerFree ∧ ∃ t, run (term (.ref 35)) halvingStore = .ok t ∧
      t.eval (comparing fun id => if id = "x" then some (-7) else none) = some (.inl 1) := by
  rw [halvingStore]
  obtain ⟨made, hmade, hmem⟩ := assembled_halving (Build.eq_of_fst_eq_ok halving_fst)
  have hpower : halved.PowerFree := by
    simp [halved, Formula.PowerFree]
  obtain ⟨t, ht, hmeaning⟩ := overloads_keep_meaning hmade hmem hpower
  refine ⟨made, hmade, hmem, hpower, t, ht, ?_⟩
  rw [(hmeaning _ _).2 fun c _ => provides_comparing _ c]
  rfl

/-! ## Formulas that change -/

/-- A comparison of two variables. -/
def ordered : Formula :=
  .operation (.comparison .less) (.use "a") (.use "b")

/-- A power of two numbers. -/
def raised : Formula :=
  .operation (.arithmetic .pow) (.number 2) (.number 3)

/-- How both are made. -/
def misreading : Build (Value × Value) := do
  let a ← Build.construct .variableUse [] [(.name, .text "a")]
  let b ← Build.construct .variableUse [] [(.name, .text "b")]
  let less ← Build.applyBinary (.comparison .less) (.ref a) (.ref b)
  let two ← Build.construct .literalInt32 [] [(.value, .int 2)]
  let three ← Build.construct .literalInt32 [] [(.value, .int 3)]
  let power ← Build.applyBinary (.arithmetic "** or pow()" "^") (.ref two) (.ref three)
  return (less, power)

/-- The store after that. -/
def misreadStore : Store :=
  (misreading Store.initial).2

/-- Both were made, wherever their nodes are. -/
theorem assembled_misreading {v w : Value} {s : Store}
    (h : misreading Store.initial = (.ok (v, w), s)) :
    ∃ made, Assembled s made ∧ (v, ordered) ∈ made ∧ (w, raised) ∈ made := by
  obtain ⟨a, s₁, ha, h⟩ := Build.andThen_eq_ok.mp h
  obtain ⟨b, s₂, hb, h⟩ := Build.andThen_eq_ok.mp h
  obtain ⟨less, s₃, hless, h⟩ := Build.andThen_eq_ok.mp h
  obtain ⟨two, s₄, htwo, h⟩ := Build.andThen_eq_ok.mp h
  obtain ⟨three, s₅, hthree, h⟩ := Build.andThen_eq_ok.mp h
  obtain ⟨power, s₆, hpower, h⟩ := Build.andThen_eq_ok.mp h
  cases h
  have h₁ : Assembled s₁ [(.ref a, .use "a")] := .use (.start _) rfl rfl ha
  have h₂ : Assembled s₂ ((.ref b, .use "b") :: _) := .use h₁ rfl rfl hb
  have h₃ : Assembled s₃ ((v, ordered) :: _) := .operation h₂ (by simp) (by simp) rfl hless
  have h₄ : Assembled s₄ ((.ref two, .number 2) :: _) := .number h₃ (by decide) rfl rfl htwo
  have h₅ : Assembled s₅ ((.ref three, .number 3) :: _) := .number h₄ (by decide) rfl rfl hthree
  have h₆ : Assembled s ((w, raised) :: _) := .operation h₅ (by simp) (by simp) rfl hpower
  exact ⟨_, h₆, by simp, by simp⟩

theorem misreading_fst : (misreading Store.initial).1 = .ok (.ref 29, .ref 39) := by
  decide +kernel

/-- The value of a formula among the integers, and the leaves that its evaluation meets. -/
def Formula.traced (env : String → Option Int) (φ : Formula) : Option (Int × List Leaf) :=
  (φ.eval (integers env)).run []

/-- One and two. -/
def orderedValues (id : String) : Option Int :=
  if id = "a" then some 1 else if id = "b" then some 2 else none

/-- Where there are integers and no functions, one is less than two, but the term of the
comparison has no value. Two to the third is eight, but the term of the power is one. -/
theorem comparison_and_power_change : ∃ made, Assembled misreadStore made ∧
    (.ref 29, ordered) ∈ made ∧ (.ref 39, raised) ∈ made ∧
    (ordered.traced orderedValues = some (1, [.use "a", .use "b"]) ∧
      ∃ t, run (term (.ref 29)) misreadStore = .ok t ∧ Target.traced orderedValues t = none) ∧
    (raised.traced orderedValues = some (8, [.number 2, .number 3]) ∧
      ∃ t, run (term (.ref 39)) misreadStore = .ok t ∧
        Target.traced orderedValues t = some (1, [.number 2, .number 3])) := by
  rw [misreadStore]
  obtain ⟨made, hmade, hordered, hraised⟩ :=
    assembled_misreading (Build.eq_of_fst_eq_ok misreading_fst)
  refine ⟨made, hmade, hordered, hraised, ⟨rfl, _, hmade.run_term hordered, ?_⟩, rfl, _,
    hmade.run_term hraised, ?_⟩
  · rfl
  · rfl

end ProgramTree.Target
