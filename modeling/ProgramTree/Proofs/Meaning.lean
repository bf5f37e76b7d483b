/-
Conversion keeps the meaning of expressions.

A meaning says what variables are, what the operators do, and in which monad all of it
happens. The monad is a parameter, so whatever evaluation does besides giving a value,
such as failing, asking for input or leaving a trace, is part of the statements: two
evaluations that are equal in every monad meet the same leaves in the same order.

Terms are evaluated as the target does it. Conjunctions and disjunctions give one of
their operands and stop early, a chain of comparisons stops at the first that fails.
Expressions are evaluated by the truth tables of their operators. The two agree where
the operands of the operators on truth values are truth values.
-/
import Mathlib.Data.Fin.VecNotation
import Mathlib.Data.Int.Bitwise
import ProgramTree.Proofs.Expression

open ProgramTree.Look ProgramTree.Target.Convert

namespace ProgramTree.Target

/-! ## Meanings -/

/-- What an evaluation meets at the ends of an expression. -/
inductive Leaf
  | use (id : String)
  | truth (b : Bool)
  | number (n : Int)
deriving DecidableEq, Repr

/-- What variables and operators mean. Truth values can be told from their opposites, and
the exclusive disjunction of two of them is one; nothing else is asked of the operators. -/
structure Meaning (m : Type → Type) [Monad m] where
  Val : Type
  ofBool : Bool → Val
  ofInt : Int → Val
  nothing : Val
  isTrue : Val → Bool
  isTrue_ofBool : ∀ b, isTrue (ofBool b) = b
  /-- What happens when a leaf is met. -/
  meet : Leaf → m Unit
  read : String → m Val
  binary : BinarySign → Val → Val → m Val
  binary_bitXor : ∀ a b, binary .bitXor (ofBool a) (ofBool b) = pure (ofBool (a ^^ b))
  /-- A sign before a number. -/
  signed : UnarySign → Val → m Val
  compare : CompareSign → Val → Val → m Bool
  call : Val → List Val → m Val
  /-- What the other terms do. -/
  stuck : m Val

/-- The truth value that settles a conjunction or disjunction. -/
def LogicalSign.settledBy : LogicalSign → Bool
  | .and => false
  | .or => true

section Evaluation

variable {m : Type → Type} [Monad m] (I : Meaning m)

/-! ## Terms -/

/-- A variable is met and read. -/
def Meaning.variable (id : String) : m I.Val := do
  I.meet (.use id)
  I.read id

mutual

/-- The value of a term, evaluated as the target does. -/
def Term.eval : Term → m I.Val
  | .name (.text id) .load => I.variable id
  | .constant (.bool b) => do
    I.meet (.truth b)
    return I.ofBool b
  | .constant (.int n) => do
    I.meet (.number n)
    return I.ofInt n
  | .constant .null => return I.nothing
  | .unary sign x => do
    let a ← x.eval
    match sign with
    | .not => return I.ofBool !I.isTrue a
    | sign => I.signed sign a
  | .binary l sign r => do
    let a ← l.eval
    let b ← r.eval
    I.binary sign a b
  | .logical sign ts => evalLogical sign ts
  | .compare l signs ts => do evalComparisons (← l.eval) signs ts
  | .conditional test body orElse => do
    if I.isTrue (← test.eval) then body.eval else orElse.eval
  | .call f args [] => do
    let g ← f.eval
    I.call g (← evalAll args)
  | _ => I.stuck

/-- Operands one after the other, up to the first that settles the matter, which is the
value. -/
def evalLogical (sign : LogicalSign) : List Term → m I.Val
  | [] => I.stuck
  | [t] => t.eval
  | t :: ts => do
    let a ← t.eval
    if I.isTrue a = sign.settledBy then return a else evalLogical sign ts

/-- Comparisons one after the other, each with the operand before it. -/
def evalComparisons (a : I.Val) : List CompareSign → List Term → m I.Val
  | [sign], [t] => do
    let b ← t.eval
    return I.ofBool (← I.compare sign a b)
  | sign :: signs, t :: ts => do
    let b ← t.eval
    if ← I.compare sign a b then evalComparisons b signs ts else return I.ofBool false
  | _, _ => I.stuck

/-- Terms one after the other. -/
def evalAll : List Term → m (List I.Val)
  | [] => return []
  | t :: ts => do
    let a ← t.eval
    return a :: (← evalAll ts)

end

/-! ## Expressions -/

/-- The truth table of an operator. -/
def Gate.table : Gate → Bool → Bool → Bool
  | .and, a, b => a && b
  | .or, a, b => a || b
  | .nand, a, b => !(a && b)
  | .nor, a, b => !(a || b)
  | .xor, a, b => a ^^ b
  | .xnor, a, b => !(a ^^ b)

/-- What an operator gives whatever the second operand is, if the first one settles it. -/
def Gate.settled? (g : Gate) (a : Bool) : Option Bool :=
  if g.table a true = g.table a false then some (g.table a true) else none

/-- All comparisons of a chain hold, each with the operand before it. The operands after
the first comparison that fails are not evaluated. -/
def Meaning.linked : (count : Nat) → (Fin count → CompareSign) → (Fin count → m I.Val) →
    I.Val → m Bool
  | 0, _, _, _ => return true
  | count + 1, signs, rights, a => do
    let b ← rights 0
    if ← I.compare (signs 0) a b then
      linked count (fun i => signs i.succ) (fun i => rights i.succ) b
    else return false

/-- The value of an expression. An operator on truth values does what its table says, and
does not evaluate the second operand if the first one settles it. -/
def Expression.eval : Expression → m I.Val
  | .use id => I.variable id
  | .truth b => do
    I.meet (.truth b)
    return I.ofBool b
  | .number n => do
    I.meet (.number n)
    return I.ofInt n
  | .binary sign l r => do
    let a ← l.eval
    let b ← r.eval
    I.binary sign a b
  | .custom code l r => do
    let f ← I.variable (operatorFunction code)
    let a ← l.eval
    let b ← r.eval
    I.call f [a, b]
  | .unary sign x => do
    let a ← x.eval
    match sign with
    | .not => return I.ofBool !I.isTrue a
    | sign => I.signed sign a
  | .negation x => do
    return I.ofBool !I.isTrue (← x.eval)
  | .gate g l r => do
    let a ← l.eval
    match g.settled? (I.isTrue a) with
    | some c => return I.ofBool c
    | none => return I.ofBool (g.table (I.isTrue a) (I.isTrue (← r.eval)))
  | .compare l count signs rights => do
    return I.ofBool (← I.linked (count + 1) signs (fun i => (rights i).eval) (← l.eval))
  | .group x => x.eval
  | .choose test body orElse => do
    if I.isTrue (← test.eval) then body.eval else orElse.eval
  | .when test body => do
    if I.isTrue (← test.eval) then body.eval else return I.nothing

/-- The value of an expression is a truth value, whatever else happens. -/
def Expression.Boolean (e : Expression) : Prop :=
  ∃ x : m Bool, e.eval I = I.ofBool <$> x

/-- All operands of operators on truth values are truth values. -/
def Expression.BooleanOperands : Expression → Prop
  | .use _ | .truth _ | .number _ => True
  | .binary _ l r | .custom _ l r | .when l r => l.BooleanOperands ∧ r.BooleanOperands
  | .unary _ x | .negation x | .group x => x.BooleanOperands
  | .gate _ l r => l.Boolean I ∧ r.Boolean I ∧ l.BooleanOperands ∧ r.BooleanOperands
  | .compare l _ _ rights => l.BooleanOperands ∧ ∀ i, (rights i).BooleanOperands
  | .choose test body orElse =>
    test.BooleanOperands ∧ body.BooleanOperands ∧ orElse.BooleanOperands

end Evaluation

section Agreement

variable {m : Type → Type} [Monad m] [LawfulMonad m] {I : Meaning m} {l r t : Term}
  {x y : m Bool}

/-! ## Operators on truth values -/

/-- What an operator does with two truth values that are yet to be evaluated. -/
def Gate.run (g : Gate) (x y : m Bool) : m Bool := do
  let a ← x
  match g.settled? a with
  | some c => return c
  | none => return g.table a (← y)

/-- A conjunction or disjunction of truth values. -/
theorem eval_logical (sign : LogicalSign) (hl : l.eval I = I.ofBool <$> x)
    (hr : r.eval I = I.ofBool <$> y) : (logical sign l r).eval I =
      I.ofBool <$> (x >>= fun a => if a = sign.settledBy then pure a else y) := by
  have hstep : (logical sign l r).eval I =
      l.eval I >>= fun a => if I.isTrue a = sign.settledBy then pure a else r.eval I := rfl
  rw [hstep, hl, hr, bind_map_left, map_bind]
  refine bind_congr fun a => ?_
  rw [I.isTrue_ofBool]
  by_cases ha : a = sign.settledBy
  · rw [if_pos ha, if_pos ha, map_pure]
  · rw [if_neg ha, if_neg ha]

/-- An exclusive disjunction of truth values. -/
theorem eval_exclusive (hl : l.eval I = I.ofBool <$> x) (hr : r.eval I = I.ofBool <$> y) :
    (exclusive l r).eval I = I.ofBool <$> (x >>= fun a => y >>= fun b => pure (a ^^ b)) := by
  have hstep : (exclusive l r).eval I =
      l.eval I >>= fun a => r.eval I >>= fun b => I.binary .bitXor a b := rfl
  rw [hstep, hl, hr, bind_map_left, map_bind]
  refine bind_congr fun a => ?_
  rw [bind_map_left, map_bind]
  refine bind_congr fun b => ?_
  rw [I.binary_bitXor, map_pure]

/-- A negation of a truth value. -/
theorem eval_negated (ht : t.eval I = I.ofBool <$> x) :
    (negated t).eval I = I.ofBool <$> (x >>= fun a => pure !a) := by
  have hstep : (negated t).eval I = t.eval I >>= fun a => pure (I.ofBool !I.isTrue a) := rfl
  rw [hstep, ht, bind_map_left, map_bind]
  refine bind_congr fun a => ?_
  rw [I.isTrue_ofBool, map_pure]

/-- **Gates.** The three operators of the target do what the tables of the six say, and
stop where the first operand settles it. -/
theorem Gate.eval_term (g : Gate) (hl : l.eval I = I.ofBool <$> x)
    (hr : r.eval I = I.ofBool <$> y) : (g.term l r).eval I = I.ofBool <$> g.run x y := by
  -- Each of the six is a function of the first operand, and has two cases to compare.
  have htable : ∀ f : Bool → m Bool, (∀ a, f a = match g.settled? a with
      | some c => pure c
      | none => do return g.table a (← y)) → I.ofBool <$> (x >>= f) = I.ofBool <$> g.run x y := by
    intro f hf
    rw [run, funext hf]
  cases g with
  | and =>
    rw [term, eval_logical .and hl hr]
    refine htable _ fun a => ?_
    cases a <;> simp [settled?, table, LogicalSign.settledBy]
  | or =>
    rw [term, eval_logical .or hl hr]
    refine htable _ fun a => ?_
    cases a <;> simp [settled?, table, LogicalSign.settledBy]
  | nand =>
    rw [term, eval_negated (eval_logical .and hl hr), bind_assoc]
    refine htable _ fun a => ?_
    cases a <;> simp [settled?, table, LogicalSign.settledBy]
  | nor =>
    rw [term, eval_negated (eval_logical .or hl hr), bind_assoc]
    refine htable _ fun a => ?_
    cases a <;> simp [settled?, table, LogicalSign.settledBy]
  | xor =>
    rw [term, eval_exclusive hl hr]
    refine htable _ fun a => ?_
    cases a <;> simp [settled?, table]
  | xnor =>
    rw [term, eval_negated (eval_exclusive hl hr), bind_assoc]
    refine htable _ fun a => ?_
    cases a <;> simp [settled?, table]

namespace Expression

variable {e e' : Expression}

/-- The value of an operator on truth values by its table. -/
theorem eval_gate (g : Gate) (hl : e.eval I = I.ofBool <$> x) (hr : e'.eval I = I.ofBool <$> y) :
    (gate g e e').eval I = I.ofBool <$> g.run x y := by
  rw [eval, hl, hr, bind_map_left, Gate.run, map_bind]
  refine bind_congr fun a => ?_
  rw [I.isTrue_ofBool]
  cases g.settled? a with
  | some c => rw [map_pure]
  | none => simp [I.isTrue_ofBool]

theorem boolean_truth (b : Bool) : (truth b).Boolean I := by
  refine ⟨I.meet (.truth b) >>= fun _ => pure b, ?_⟩
  rw [eval, map_bind]
  refine bind_congr fun _ => ?_
  rw [map_pure]

/-- An operator on truth values has one again, so operators can be nested. -/
theorem boolean_gate (g : Gate) (hl : e.Boolean I) (hr : e'.Boolean I) :
    (gate g e e').Boolean I := by
  obtain ⟨x, hx⟩ := hl
  obtain ⟨y, hy⟩ := hr
  exact ⟨g.run x y, eval_gate g hx hy⟩

end Expression

/-! ## Comparisons -/

/-- **Chains.** Comparing one after the other is asking whether all comparisons hold. The
induction is on the number of comparisons; the last one has a rule of its own. -/
theorem evalComparisons_ofFn {count : Nat} (signs : Fin (count + 1) → CompareSign)
    (ts : Fin (count + 1) → Term) (a : I.Val) :
    evalComparisons I a (List.ofFn signs) (List.ofFn ts) =
      I.ofBool <$> I.linked (count + 1) signs (fun i => (ts i).eval I) a := by
  induction count generalizing a with
  | zero =>
    have hone : evalComparisons I a (List.ofFn signs) (List.ofFn ts) =
        (ts 0).eval I >>= fun b => I.compare (signs 0) a b >>= fun c => pure (I.ofBool c) := by
      simp only [List.ofFn_succ, List.ofFn_zero, evalComparisons]
    rw [hone, Meaning.linked, map_bind]
    refine bind_congr fun b => ?_
    rw [map_bind]
    refine bind_congr fun c => ?_
    cases c with
    | false => simp
    | true => simp [Meaning.linked]
  | succ count ih =>
    have hmore : evalComparisons I a (List.ofFn signs) (List.ofFn ts) =
        (ts 0).eval I >>= fun b => I.compare (signs 0) a b >>= fun c =>
          if c then evalComparisons I b (List.ofFn fun i => signs i.succ)
            (List.ofFn fun i => ts i.succ) else pure (I.ofBool false) := by
      rw [List.ofFn_succ, List.ofFn_succ, List.ofFn_succ, List.ofFn_succ, evalComparisons]
      simp
    rw [hmore, Meaning.linked, map_bind]
    refine bind_congr fun b => ?_
    rw [map_bind]
    refine bind_congr fun c => ?_
    rw [ih]
    cases c with
    | false => simp
    | true => simp

/-! ## Expressions and their terms -/

/-- **Meaning.** The term of an expression evaluates as the expression does. -/
theorem Expression.eval_term (e : Expression) (h : e.BooleanOperands I) :
    e.term.eval I = e.eval I := by
  induction e with
  | use id => rfl
  | truth b => rfl
  | number n => rfl
  | binary sign l r ihl ihr =>
    rw [term, Term.eval, ihl h.1, ihr h.2, eval]
  | custom code l r ihl ihr =>
    have hcall : (custom code l r).term.eval I = I.variable (operatorFunction code) >>= fun f =>
        l.term.eval I >>= fun a => r.term.eval I >>= fun b => I.call f [a, b] := by
      simp [term, Term.callOf, Term.load, Term.eval, evalAll]
    rw [hcall, ihl h.1, ihr h.2, eval]
  | unary sign x ih => rw [term, Term.eval, ih h, eval]
  | negation x ih =>
    have hnot : (negation x).term.eval I = x.term.eval I >>= fun a => pure (I.ofBool !I.isTrue a) :=
      rfl
    rw [hnot, ih h, eval]
  | gate g l r ihl ihr =>
    obtain ⟨⟨x, hx⟩, ⟨y, hy⟩, hl, hr⟩ := h
    rw [term, g.eval_term ((ihl hl).trans hx) ((ihr hr).trans hy), eval_gate g hx hy]
  | compare l count signs rights ihl ihr =>
    have hrights : (fun i => (rights i).term.eval I) = fun i => (rights i).eval I :=
      funext fun i => ihr i (h.2 i)
    rw [term, Term.eval, ihl h.1, eval]
    refine bind_congr fun a => ?_
    rw [evalComparisons_ofFn, hrights, map_eq_pure_bind]
  | group x ih => exact ih h
  | choose test body orElse iht ihb iho =>
    rw [term, Term.eval, iht h.1, ihb h.2.1, iho h.2.2, eval]
  | when test body iht ihb =>
    rw [term, Term.eval, iht h.1, ihb h.2, eval]
    rfl

/-- **Conversion keeps the meaning.** A value that denotes an expression is converted, and
the term has the meaning of the expression whatever variables and operators mean: it gives
the same value, and evaluation meets the same leaves in the same order, if the operands of
the operators on truth values are truth values. -/
theorem conversion_keeps_meaning {s : Store} {v : Value} {e : Expression} (h : Denotes s v e) :
    ∃ t, run (term v) s = .ok t ∧
      ∀ (m : Type → Type) [Monad m] [LawfulMonad m] (I : Meaning m),
        e.BooleanOperands I → t.eval I = e.eval I :=
  ⟨e.term, h.run_term, fun _ _ _ _ hoperands => e.eval_term hoperands⟩

end Agreement

/-! ## A choice -/

/-- What signs mean between integers. Quotients, negative powers and shifts by negative
numbers are no integers. -/
def integerBinary : BinarySign → Int → Int → Option Int
  | .add, a, b => some (a + b)
  | .sub, a, b => some (a - b)
  | .mult, a, b => some (a * b)
  | .div, _, _ => none
  | .floorDiv, a, b => if b = 0 then none else some (a.fdiv b)
  | .mod, a, b => if b = 0 then none else some (a.fmod b)
  | .pow, a, b => if b < 0 then none else some (a ^ b.toNat)
  | .lShift, a, b => if b < 0 then none else some (a * 2 ^ b.toNat)
  | .rShift, a, b => if b < 0 then none else some (a.fdiv (2 ^ b.toNat))
  | .bitOr, a, b => some (a.lor b)
  | .bitAnd, a, b => some (a.land b)
  | .bitXor, a, b => some (a.xor b)

/-- Whether a comparison of integers holds, if it is one of their size. -/
def integerCompare : CompareSign → Int → Int → Option Bool
  | .eq, a, b => some (a = b)
  | .notEq, a, b => some (a ≠ b)
  | .lt, a, b => some (a < b)
  | .ltE, a, b => some (a ≤ b)
  | .gt, a, b => some (b < a)
  | .gtE, a, b => some (b ≤ a)
  | _, _, _ => none

/-- Integers, with one and zero for the truth values. Evaluation keeps a list of the leaves
that it meets, and fails where there is no integer; there are no functions. -/
def integers (env : String → Option Int) : Meaning (StateT (List Leaf) Option) where
  Val := Int
  ofBool b := if b then 1 else 0
  ofInt n := n
  nothing := 0
  isTrue n := n ≠ 0
  isTrue_ofBool b := by cases b <;> rfl
  meet leaf := modify (· ++ [leaf])
  read id := liftM (env id)
  binary sign a b := liftM (integerBinary sign a b)
  binary_bitXor a b := by cases a <;> cases b <;> rfl
  signed sign a :=
    match sign with
    | .minus => return -a
    | .plus => return a
    | .invert => return -a - 1
    | .not => failure
  compare sign a b := liftM (integerCompare sign a b)
  call _ _ := failure
  stuck := failure

/-- The value of a term among the integers, and the leaves that its evaluation meets. -/
def traced (env : String → Option Int) (t : Term) : Option (Int × List Leaf) :=
  (t.eval (integers env)).run []

/-- A choice between a chain of comparisons and a negative number in a group. The test is
an operator on two more of them. -/
def choosing : Build Unit := do
  let p ← Build.construct .variableUse [] [(.name, .text "p")]
  let q ← Build.construct .variableUse [] [(.name, .text "q")]
  let x ← Build.construct .variableUse [] [(.name, .text "x")]
  let yes ← Build.construct .literalBoolean [] [(.value, .bool true)]
  let one ← Build.construct .literalInt32 [] [(.value, .int 1)]
  let ten ← Build.construct .literalInt32 [] [(.value, .int 10)]
  let either ← Build.construct .orOp [] [(.lhs, .ref p), (.rhs, .ref q)]
  let differ ← Build.construct .xorOp [] [(.lhs, .ref p), (.rhs, .ref yes)]
  let test ← Build.construct .nandOp [] [(.lhs, .ref either), (.rhs, .ref differ)]
  let signs ← Build.newList [.text "<", .text "<="]
  let bounds ← Build.newList [.ref x, .ref ten]
  let chain ← Build.construct .compareOp []
    [(.left, .ref one), (.ops, signs), (.comparators, bounds)]
  let body ← Build.construct .block [] []
  Build.append (.ref body) (.ref chain)
  let minus ← Build.construct .unaryOp [] [(.opCode, .text "-"), (.operand, .ref x)]
  let group ← Build.construct .parenthesizedExpr [] [(.value, .ref minus)]
  let orElse ← Build.construct .block [] []
  Build.append (.ref orElse) (.ref group)
  let _ ← Build.construct .ifExpr []
    [(.condition, .ref test), (.thenBranch, .ref body), (.elseBranch, .ref orElse)]

/-- The store with the choice in it. -/
def choosingStore : Store :=
  (choosing Store.initial).2

/-- The choice as an expression. -/
def choice : Expression :=
  .choose
    (.gate .nand (.gate .or (.use "p") (.use "q")) (.gate .xor (.use "p") (.truth true)))
    (.compare (.number 1) 1 ![.lt, .ltE] ![.use "x", .number 10])
    (.group (.unary .minus (.use "x")))

/-- What the constructors left behind. -/
theorem choosingStore_nodes :
    NodeWith choosingStore (.ref 21) .variableUse [(.name, .text "p")] ∧
    NodeWith choosingStore (.ref 25) .variableUse [(.name, .text "q")] ∧
    NodeWith choosingStore (.ref 29) .variableUse [(.name, .text "x")] ∧
    NodeWith choosingStore (.ref 33) .literalBoolean [(.value, .bool true)] ∧
    NodeWith choosingStore (.ref 37) .literalInt32 [(.value, .int 1)] ∧
    NodeWith choosingStore (.ref 41) .literalInt32 [(.value, .int 10)] ∧
    NodeWith choosingStore (.ref 45) .orOp [(.lhs, .ref 21), (.rhs, .ref 25)] ∧
    NodeWith choosingStore (.ref 47) .xorOp [(.lhs, .ref 21), (.rhs, .ref 33)] ∧
    NodeWith choosingStore (.ref 49) .nandOp [(.lhs, .ref 45), (.rhs, .ref 47)] ∧
    NodeWith choosingStore (.ref 53) .compareOp [(.left, .ref 37), (.ops, .ref 55),
      (.comparators, .ref 56)] ∧
    NodeWith choosingStore (.ref 59) .unaryOp [(.opCode, .text "-"), (.operand, .ref 29)] ∧
    NodeWith choosingStore (.ref 61) .parenthesizedExpr [(.value, .ref 59)] ∧
    NodeWith choosingStore (.ref 67) .ifExpr [(.condition, .ref 49), (.thenBranch, .ref 57),
      (.elseBranch, .ref 65)] := by
  decide +kernel

/-- The collections that they left behind. -/
theorem choosingStore_collections :
    (choosingStore.cell? 55).bind sequence? = some [.text "<", .text "<="] ∧
    (choosingStore.cell? 56).bind sequence? = some [.ref 29, .ref 41] ∧
    IsContainer choosingStore (.ref 57) 58 [.ref 53] ∧
    IsContainer choosingStore (.ref 65) 66 [.ref 61] := by
  decide +kernel

/-- The node denotes the choice. -/
theorem denotes_choice : Denotes choosingStore (.ref 67) choice := by
  obtain ⟨⟨hp, hpName⟩, ⟨hq, hqName⟩, ⟨hx, hxName⟩, ⟨hyes, hyesValue⟩, ⟨hone, honeValue⟩,
    ⟨hten, htenValue⟩, ⟨hor, horl, horr⟩, ⟨hxor, hxorl, hxorr⟩, ⟨hnand, hnandl, hnandr⟩,
    ⟨hcompare, hleft, hops, hcomparators⟩, ⟨hminus, hcode, hoperand⟩, ⟨hgroup, hinner⟩,
    ⟨hif, htest, hbody, hotherwise⟩⟩ := choosingStore_nodes
  obtain ⟨hsigns, hbounds, hthen, helse⟩ := choosingStore_collections
  have hpUse := Denotes.use hp hpName
  have hxUse := Denotes.use hx hxName
  have htrue := Denotes.truth hyes (by decide) hyesValue
  have htestNode : Denotes choosingStore (.ref 49) _ :=
    .gate (g := .nand) hnand hnandl hnandr
      (.gate (g := .or) hor horl horr hpUse (.use hq hqName))
      (.gate (g := .xor) hxor hxorl hxorr hpUse htrue)
  have hcodes : Contains choosingStore (.ref 55)
      (List.ofFn fun i => .text ((!["<", "<="] : Fin 2 → String) i)) :=
    contains_of_sequence? hsigns
  have hrights : Contains choosingStore (.ref 56)
      (List.ofFn (![.ref 29, .ref 41] : Fin 2 → Value)) :=
    contains_of_sequence? hbounds
  have hchain : Denotes choosingStore (.ref 53)
      (.compare (.number 1) 1 ![.lt, .ltE] ![.use "x", .number 10]) := by
    refine .compare hcompare hleft (.number hone (by decide) honeValue) hops hcodes (by decide)
      hcomparators hrights fun i => ?_
    match i with
    | 0 => exact hxUse
    | 1 => exact .number hten (by decide) htenValue
  exact .choose hif htest hbody hthen hotherwise helse htestNode hchain
    (.group hgroup hinner (.unary hminus hcode rfl hoperand hxUse))

/-- A true variable and one that has no value. -/
def choosingValues (id : String) : Option Int :=
  if id = "p" then some 1 else if id = "x" then some 5 else none

/-- The operands of the operators on truth values in the choice are truth values. -/
theorem booleanOperands_choice : choice.BooleanOperands (integers choosingValues) := by
  have hp : (Expression.use "p").Boolean (integers choosingValues) :=
    ⟨(integers choosingValues).meet (.use "p") >>= fun _ => pure true, rfl⟩
  have hq : (Expression.use "q").Boolean (integers choosingValues) :=
    ⟨(integers choosingValues).meet (.use "q") >>= fun _ => failure, rfl⟩
  have hyes := Expression.boolean_truth (I := integers choosingValues) true
  have hor := Expression.boolean_gate .or hp hq
  have hxor := Expression.boolean_gate .xor hp hyes
  refine ⟨⟨hor, hxor, ⟨hp, hq, trivial, trivial⟩, hp, hyes, trivial, trivial⟩, ⟨trivial, ?_⟩,
    trivial⟩
  intro i
  match i with
  | 0 => trivial
  | 1 => trivial

/-- Where `p` is true and `x` is five, the choice is true. The second operand of the
disjunction has no value and is not evaluated, and neither is the second branch. -/
theorem choice_meets_leaves : ∃ t, run (term (.ref 67)) choosingStore = .ok t ∧
    traced choosingValues t =
      some (1, [.use "p", .use "p", .truth true, .number 1, .use "x", .number 10]) := by
  obtain ⟨t, ht, hmeaning⟩ := conversion_keeps_meaning denotes_choice
  refine ⟨t, ht, ?_⟩
  rw [traced, hmeaning _ _ booleanOperands_choice]
  rfl

end ProgramTree.Target
