/-
Operators on operators.

Operators are written between nodes, and what they make are nodes again. A binary operator
takes only operands whose types are data types, and it has such a type itself. A unary
operator takes any operand, but its own type is a plain one. So a formula can be written down
just if no binary operator in it stands next to a unary one, or next to a complex number of no
width, which has a plain type too (`build_iff_composable`).
-/
import ProgramTree.Proofs.Types.Widest

namespace ProgramTree

open Look Build

variable {s t u : Store} {v w x y l r : Value}

/-! ## Single operators -/

namespace Build

/-- A unary operator can be made on anything. -/
theorem construct_unary {form : Form} {given : List (Field × Value)} {args : Arguments}
    (hform : form.isA .unaryOp = true) (hargs : Arguments.fill form given = .ok args)
    (hparent : Hint.growing.maybe.meets s (args.get .parent) = true) :
    ∃ a t, construct form [] given s = (.ok a, t) ∧ s.Kept t := by
  let rest : Build Unit := do
    setFields s.nextAddress [(.opCode, operatorCode form args), (.operand, args.get .operand)]
    giveKind s.nextAddress form
  have hfill : fill s.nextAddress form args [] = (do startType s.nextAddress args; rest) := by
    have hall : ∀ f ∈ special, f.isA .unaryOp = false := by decide
    have hother : ∀ f : Form, f.isA .unaryOp = true → f.isA .binaryOp = false := by
      intro f
      cases f <;> decide
    have hspecial : form ∉ special := fun hmem => by
      rw [hall form hmem] at hform
      cases hform
    rw [fill_ordinary hspecial, fillOrdinary, hother form hform, if_neg Bool.false_ne_true,
      if_pos hform]
  obtain ⟨u, hu⟩ := startType_push hparent form
  obtain ⟨_, t, ht⟩ := ((total_setFields s.nextAddress _).bind fun _ =>
    total_setField _ _ _ : Total rest) u
  have hdone := (andThen_of_eq (f := fun _ => rest) hu).trans ht
  refine ⟨s.nextAddress, t, ?_, kept_of_pins (fun b K hb => ?_) hdone⟩
  · rw [construct, hargs]
    refine (andThen_of_eq rfl).trans ?_
    rw [hfill]
    exact andThen_of_eq hdone
  · have hne : ∀ {P : Prop}, s.nextAddress = b → P := fun heq => absurd heq hb
    exact (pins_startType hne args).bind fun _ => (pins_setFields hne).bind fun _ =>
      pins_setField hne

end Build

namespace Types

/-- A sign of a binary operator that is overloaded. -/
structure Sign where
  text : String
  overload : Overload
  overload_eq : Overload.ofSign? text = some overload
deriving DecidableEq, Repr

/-- What the operator of a logical sign makes is an operator on truth values. -/
theorem Sign.exists_gate (o : Sign) {text : String} {form : Form}
    (h : o.overload = .logical text form) : ∃ g : Target.Gate, form = g.form := by
  have hsign := o.overload_eq
  rw [h, Overload.ofSign?.eq_def] at hsign
  split at hsign
  all_goals cases hsign
  · exact ⟨.and, rfl⟩
  · exact ⟨.or, rfl⟩
  · exact ⟨.xor, rfl⟩

theorem look_overloads (hx : s.isForm x .dataTypeOps = true) :
    look (overloads x) s = (.ok true, s) :=
  look_of_still (still_isA _ _) (by rw [overloads, run_isA]; exact congrArg _ hx)

/-- A comparison finds out which operand to ask. -/
theorem exists_look_asksRight (hx : s.isForm x .dataTypeOps = true)
    (hy : s.isForm y .dataTypeOps = true) : ∃ b, look (asksRight x y) s = (.ok b, s) := by
  obtain ⟨f, hf, -⟩ := Store.isForm_iff.mp hx
  obtain ⟨g, hg, hisA⟩ := Store.isForm_iff.mp hy
  obtain ⟨m, hm, -⟩ := Option.map_eq_some_iff.mp hf
  obtain ⟨n, hn, rfl⟩ := Option.map_eq_some_iff.mp hg
  have hrun : run (asksRight x y) s =
      .ok (!m.form.isA .dataTypeOps || (n.form ≠ m.form && n.form.isA m.form)) := by
    simp [asksRight, overloads, Store.formOf?, hm, hn, hisA]
  exact ⟨_, look_of_still (still_asksRight x y) hrun⟩

/-- Between nodes that overload it, an operator makes a node with the two as operands. The
operands of a comparison may be exchanged. -/
theorem Sign.exists_joint (o : Sign) (hx : s.isForm x .dataTypeOps = true)
    (hy : s.isForm y .dataTypeOps = true) :
    ∃ (j : Joint) (l r : Value), (l = x ∧ r = y ∨ l = y ∧ r = x) ∧
      applyBinary o.overload x y s =
        (construct j.form [] (j.given l r ++ Spot.given ⟨none, none⟩) >>= fun a =>
          pure (.ref a)) s := by
  cases ho : o.overload with
  | arithmetic sign code =>
    exact ⟨.code code, x, y, .inl ⟨rfl, rfl⟩, andThen_of_eq (look_overloads hx)⟩
  | logical sign form =>
    obtain ⟨g, rfl⟩ := o.exists_gate ho
    exact ⟨.gate g, x, y, .inl ⟨rfl, rfl⟩, andThen_of_eq (look_overloads hx)⟩
  | comparison c =>
    obtain ⟨b, hb⟩ := exists_look_asksRight hx hy
    cases b with
    | true => exact ⟨.code c.turned.sign, y, x, .inr ⟨rfl, rfl⟩, andThen_of_eq hb⟩
    | false =>
      exact ⟨.code c.sign, x, y, .inl ⟨rfl, rfl⟩,
        (andThen_of_eq hb).trans (andThen_of_eq (look_overloads hx))⟩

/-- Something that operators apply to: its type is a data type, or it is a plain type. -/
structure Operable (s : Store) (v : Value) (typed : Bool) : Prop where
  overloads : s.isForm v .dataTypeOps = true
  type : ∃ w, run (field v .type) s = .ok w ∧ s.isForm w .node = true ∧
    s.isForm w .dataType = typed ∧ s.isForm w .dataTypeOps = false

namespace Operable

variable {a b : Bool}

theorem grown (h : Operable s v a) (hst : s.Grown t) : Operable t v a := by
  obtain ⟨w, hw, hnode, htyped, hplain⟩ := h.type
  have hsame : ∀ f, t.isForm w f = s.isForm w f := fun f => hst.kept.isForm hnode
  exact ⟨hst.more.isForm h.overloads, w, hst.kept.run_type hw, by rwa [hsame], by rwa [hsame],
    by rwa [hsame]⟩

theorem operand (h : Operable s v a) : s.isForm v .dataType = true := by
  obtain ⟨f, hf, hisA⟩ := Store.isForm_iff.mp h.overloads
  exact Store.isForm_iff.mpr ⟨f, hf, Form.isA_trans hisA (by decide)⟩

theorem of_isOperand (h : s.IsOperand v w) (hops : s.isForm v .dataTypeOps = true) :
    Operable s v true := by
  obtain ⟨f, hf, hisA⟩ := Store.isForm_iff.mp h.data
  exact ⟨hops, w, h.read, Store.isForm_iff.mpr ⟨f, hf, Form.isA_trans hisA (by decide)⟩, h.data,
    h.plain⟩

theorem exists_isOperand (h : Operable s v true) : ∃ w, s.IsOperand v w := by
  obtain ⟨w, hw, -, htyped, hplain⟩ := h.type
  exact ⟨w, ⟨hw, htyped, hplain⟩, h.operand⟩

/-- A binary operator between operands with data types is made, and has a data type. -/
theorem applyBinary (o : Sign) (hs : Built s) (hx : Operable s x true) (hy : Operable s y true) :
    ∃ v t, Build.applyBinary o.overload x y s = (.ok v, t) ∧ s.Grown t ∧ Operable t v true := by
  obtain ⟨j, l, r, hlr, hmake⟩ := o.exists_joint hx.overloads hy.overloads
  obtain ⟨wl, hl⟩ : ∃ w, s.IsOperand l w := by
    rcases hlr with ⟨rfl, -⟩ | ⟨rfl, -⟩
    · exact hx.exists_isOperand
    · exact hy.exists_isOperand
  obtain ⟨wr, hr⟩ : ∃ w, s.IsOperand r w := by
    rcases hlr with ⟨-, rfl⟩ | ⟨-, rfl⟩
    · exact hy.exists_isOperand
    · exact hx.exists_isOperand
  obtain ⟨a, t, hnode, hgrown, hform, ha⟩ := j.construct_join (p := ⟨none, none⟩) hs rfl hl hr
  refine ⟨.ref a, t, hmake.trans (andThen_of_eq hnode), hgrown, of_isOperand ha ?_⟩
  exact Store.isForm_iff.mpr ⟨j.form, hform, Form.isA_trans j.isA_form (by decide)⟩

/-- A binary operator is made only between operands with data types. -/
theorem typed_of_applyBinary (o : Sign) (hx : Operable s x a) (hy : Operable s y b)
    (h : Build.applyBinary o.overload x y s = (.ok v, t)) : a = true ∧ b = true := by
  obtain ⟨j, l, r, hlr, hmake⟩ := o.exists_joint hx.overloads hy.overloads
  obtain ⟨args, hargs, rfl, rfl, hparent⟩ := j.fill_given ⟨none, none⟩ l r
  obtain ⟨c, u, hnode, -⟩ := andThen_eq_ok.mp (hmake.symm.trans h)
  obtain ⟨wx, hwx, hxnode, hxtyped, -⟩ := hx.type
  obtain ⟨wy, hwy, hynode, hytyped, -⟩ := hy.type
  have hmeets : Hint.growing.maybe.meets s (args.get .parent) = true := by rw [hparent]; rfl
  rw [← hxtyped, ← hytyped]
  rcases hlr with ⟨hl, hr⟩ | ⟨hl, hr⟩
  · exact construct_operator_inv j.isA_form hargs hmeets (hl ▸ hwx) hxnode (hr ▸ hwy) hynode hnode
  · exact (construct_operator_inv j.isA_form hargs hmeets (hl ▸ hwy) hynode (hr ▸ hwx) hxnode
      hnode).symm

/-- A unary operator is made on any operand, and has no data type. -/
theorem applyUnary (op : UnaryOverload) (hs : Built s) (hx : Operable s x a) :
    ∃ v t, Build.applyUnary op x s = (.ok v, t) ∧ s.Grown t ∧ Operable t v false := by
  obtain ⟨form, given, args, hform, hargs, hparent, haccepts, hmake⟩ : ∃ form given args,
      form ∈ [Form.unaryOp, .notOp] ∧ Arguments.fill form given = .ok args ∧
        args.get .parent = .none ∧ s.accepts form [] given = true ∧ Build.applyUnary op x s =
          (construct form [] given >>= fun a => pure (.ref a)) s := by
    have hcode : Form.unaryOp.expects .opCode = some .text := by decide
    have hunary : Form.unaryOp.expects .operand = some (.node .dataType) := by decide
    have hnot : Form.notOp.expects .operand = some (.node .dataType) := by decide
    have hlook := look_overloads hx.overloads
    cases op with
    | invert =>
      exact ⟨.notOp, [(.operand, x)], _, by decide, rfl, rfl,
        by simp [Store.accepts, hnot, Hint.meets, hx.operand], andThen_of_eq hlook⟩
    | negate | plus =>
      exact ⟨.unaryOp, [(.opCode, .text _), (.operand, x)], _, by decide, rfl, rfl,
        by simp [Store.accepts, hcode, hunary, Hint.meets, hx.operand, Hint.isText],
        andThen_of_eq hlook⟩
  have htable : ∀ f ∈ [Form.unaryOp, .notOp], f.isA .unaryOp = true ∧
      f.isA .dataTypeOps = true ∧ f.madeType? = some .exprType := by decide
  obtain ⟨hunary, hops, htype⟩ := htable form hform
  obtain ⟨a, t, hnode, hkept⟩ := construct_unary hunary hargs (by rw [hparent]; rfl)
  obtain ⟨hgrown, hmade⟩ := Store.grown_construct hs haccepts hnode hkept
  obtain ⟨w, hw, hexpr⟩ := hgrown.built.exists_type hmade htype
  refine ⟨.ref a, t, hmake.trans (andThen_of_eq hnode), hgrown,
    Store.isForm_iff.mpr ⟨form, hmade, hops⟩, w, hw, ?_⟩
  simp only [Store.isForm, hexpr, Option.any_some]
  decide

end Operable

/-! ## Formulas -/

/-- The literals that are no collections. -/
def scalarLiterals : List Form :=
  [.literalNone, .literalBoolean, .literalInt8, .literalInt16, .literalInt32, .literalInt64,
   .literalInt128, .literalUInt8, .literalUInt16, .literalUInt32, .literalUInt64, .literalUInt128,
   .literalFloat16, .literalFloat32, .literalFloat64, .literalComplex, .literalComplex32,
   .literalComplex64, .literalString, .literalUTF8String, .literalUTF8Char, .literalDate,
   .literalTime, .literalTimestamp, .literalDateTime]

/-- Whether a value is a scalar literal, or a name with a type that overloads nothing itself. -/
def isAtom (s : Store) (v : Value) : Bool :=
  (s.formOf? v).any (scalarLiterals.contains ·) ||
    s.isForm v .identifier && match run (field v .type) s with
      | .ok w => s.isForm w .dataType && !s.isForm w .dataTypeOps
      | .error _ => false

/-- Whether a value is no complex number without a width. -/
def isTyped (s : Store) (v : Value) : Bool :=
  s.formOf? v ≠ some .literalComplex

/-- Operators apply to atoms. Of their types only those of complex numbers without a width are
no data types. -/
theorem operable_of_isAtom (hs : Built s) (hv : isAtom s v = true) :
    Operable s v (isTyped s v) := by
  rw [isAtom, Bool.or_eq_true] at hv
  rcases hv with hliteral | hname
  · have hall : ∀ f ∈ scalarLiterals, f.isA .dataTypeOps = true ∧ f.madeType?.any (fun g =>
        g.isA .node && g.isA .dataType == decide (f ≠ .literalComplex) && !g.isA .dataTypeOps) =
          true := by
      decide
    obtain ⟨f, hf, hmem⟩ := (Option.any_eq_true _ _).mp hliteral
    obtain ⟨hops, htype⟩ := hall f (List.contains_iff_mem.mp hmem)
    obtain ⟨g, hg, htable⟩ := (Option.any_eq_true _ _).mp htype
    simp only [Bool.and_eq_true, beq_iff_eq, Bool.not_eq_true'] at htable
    obtain ⟨⟨hnode, hdata⟩, hplain⟩ := htable
    obtain ⟨w, hw, hform⟩ := hs.exists_type hf hg
    refine ⟨Store.isForm_iff.mpr ⟨f, hf, hops⟩, w, hw, ?_⟩
    simp only [Store.isForm, hform, Option.any_some, isTyped, hf, hnode, hdata, hplain,
      Option.some.injEq, ne_eq, and_self]
  · rw [Bool.and_eq_true] at hname
    obtain ⟨f, hf, hisA⟩ := Store.isForm_iff.mp hname.1
    have htyped : isTyped s v = true := by
      rw [isTyped, hf, decide_eq_true_eq, ne_eq, Option.some.injEq]
      rintro rfl
      cases hisA
    rw [htyped]
    cases hw : run (field v .type) s with
    | error e => simp [hw] at hname
    | ok w =>
      simp only [hw, Bool.and_eq_true, Bool.not_eq_true'] at hname
      have hops := Store.isForm_iff.mpr ⟨f, hf, Form.isA_trans hisA (k := .dataTypeOps) (by decide)⟩
      refine .of_isOperand ⟨⟨hw, hname.2.1, hname.2.2⟩, ?_⟩ hops
      exact Store.isForm_iff.mpr ⟨f, hf, Form.isA_trans hisA (by decide)⟩

/-- What is written with the overloaded operators. -/
inductive Formula
  | atom (v : Value)
  | binary (o : Sign) (left right : Formula)
  | unary (op : UnaryOverload) (operand : Formula)
deriving Repr

namespace Formula

/-- The atoms of a formula. -/
def atoms : Formula → List Value
  | atom v => [v]
  | binary _ l r => l.atoms ++ r.atoms
  | unary _ e => e.atoms

/-- Makes the nodes of a formula, operands first. -/
def build : Formula → Build Value
  | atom v => pure v
  | binary o l r => do
    let x ← l.build
    let y ← r.build
    Build.applyBinary o.overload x y
  | unary op e => do
    let x ← e.build
    Build.applyUnary op x

/-- Whether the node of a formula has a data type: that of a unary operator has not. -/
def typed (s : Store) : Formula → Bool
  | atom v => isTyped s v
  | binary .. => true
  | unary .. => false

/-- Whether the operands of all binary operators have data types. -/
def composable (s : Store) : Formula → Bool
  | atom _ => true
  | binary _ l r => l.typed s && r.typed s && l.composable s && r.composable s
  | unary _ e => e.composable s

/-- Formulas that compose can be made, also later. -/
theorem build_of_composable {e : Formula} (hs : Built s) (hst : s.Grown t)
    (hatoms : ∀ v ∈ e.atoms, isAtom s v = true) (he : e.composable s = true) :
    ∃ v u, e.build t = (.ok v, u) ∧ t.Grown u ∧ Operable u v (e.typed s) := by
  induction e generalizing t with
  | atom v =>
    have hv := operable_of_isAtom hs (hatoms v (List.mem_singleton_self v))
    exact ⟨v, t, rfl, .refl hst.built, hv.grown hst⟩
  | binary o l r ihl ihr =>
    simp only [composable, Bool.and_eq_true] at he
    obtain ⟨⟨⟨htl, htr⟩, hl⟩, hr⟩ := he
    obtain ⟨hlefts, hrights⟩ := List.forall_mem_append.mp hatoms
    obtain ⟨x, t₁, hleft, hgrown₁, hx⟩ := ihl hst hlefts hl
    obtain ⟨y, t₂, hright, hgrown₂, hy⟩ := ihr (hst.trans hgrown₁) hrights hr
    rw [htl] at hx
    rw [htr] at hy
    obtain ⟨v, u, hmake, hgrown₃, hv⟩ := (hx.grown hgrown₂).applyBinary o hgrown₂.built hy
    exact ⟨v, u, (andThen_of_eq hleft).trans ((andThen_of_eq hright).trans hmake),
      hgrown₁.trans (hgrown₂.trans hgrown₃), hv⟩
  | unary op e ih =>
    obtain ⟨x, t₁, hinner, hgrown₁, hx⟩ := ih hst hatoms he
    obtain ⟨v, u, hmake, hgrown₂, hv⟩ := hx.applyUnary op hgrown₁.built
    exact ⟨v, u, (andThen_of_eq hinner).trans hmake, hgrown₁.trans hgrown₂, hv⟩

/-- Formulas that can be made compose. -/
theorem composable_of_build {e : Formula} (hs : Built s) (hst : s.Grown t)
    (hatoms : ∀ v ∈ e.atoms, isAtom s v = true) (hmake : e.build t = (.ok v, u)) :
    e.composable s = true := by
  induction e generalizing t v u with
  | atom v => rfl
  | binary o l r ihl ihr =>
    obtain ⟨hlefts, hrights⟩ := List.forall_mem_append.mp hatoms
    obtain ⟨x, t₁, hleft, hrest⟩ := andThen_eq_ok.mp hmake
    obtain ⟨y, t₂, hright, happly⟩ := andThen_eq_ok.mp hrest
    have hl := ihl hst hlefts hleft
    -- The left operand is the one that composing gives, in a store that is built.
    obtain ⟨x', t₁', hleft', hgrown₁, hx⟩ := build_of_composable hs hst hlefts hl
    cases hleft.symm.trans hleft'
    have hr := ihr (hst.trans hgrown₁) hrights hright
    obtain ⟨y', t₂', hright', hgrown₂, hy⟩ := build_of_composable hs (hst.trans hgrown₁) hrights hr
    cases hright.symm.trans hright'
    obtain ⟨htl, htr⟩ := (hx.grown hgrown₂).typed_of_applyBinary o hy happly
    simp only [composable, htl, htr, hl, hr, Bool.and_self]
  | unary op e ih =>
    obtain ⟨x, t₁, hinner, -⟩ := andThen_eq_ok.mp hmake
    exact ih hst hatoms hinner

/-- **Formulas.** What is written with overloaded operators between atoms in a built store can
be made just if the operands of all its binary operators have data types: none is a unary
operator or a complex number without a width. -/
theorem build_iff_composable {e : Formula} (hs : Built s)
    (hatoms : ∀ v ∈ e.atoms, isAtom s v = true) :
    (∃ v t, e.build s = (.ok v, t)) ↔ e.composable s = true := by
  constructor
  · rintro ⟨v, t, hmake⟩
    exact composable_of_build hs (.refl hs) hatoms hmake
  · intro he
    obtain ⟨v, t, hmake, -⟩ := build_of_composable hs (.refl hs) hatoms he
    exact ⟨v, t, hmake⟩

/-- `~(-(1 + 2))`. -/
def invertedSum : Formula :=
  .unary .invert (.unary .negate
    (.binary ⟨"+", .arithmetic "+" "+", rfl⟩ (.atom (.ref 25)) (.atom (.ref 29))))

theorem invertedSum_made : ∃ s v t, Store.made? Compound.fourNumbers = some s ∧
    (∀ x ∈ invertedSum.atoms, isAtom s x = true) ∧ invertedSum.composable s = true ∧
    invertedSum.build s = (.ok v, t) := by
  obtain ⟨s, hs, h⟩ := (Option.any_eq_true _ _).mp (show (Store.made? Compound.fourNumbers).any
    (fun s => invertedSum.atoms.all (isAtom s) && invertedSum.composable s) = true by
      decide +kernel)
  simp only [Bool.and_eq_true, List.all_eq_true] at h
  obtain ⟨v, t, hmake⟩ := (build_iff_composable (built_of_made hs) h.1).mpr h.2
  exact ⟨s, v, t, hs, h.1, h.2, hmake⟩

/-- `-1 + 2`. -/
def negatedSum : Formula :=
  .binary ⟨"+", .arithmetic "+" "+", rfl⟩ (.unary .negate (.atom (.ref 25))) (.atom (.ref 29))

/-- A sum with a negated number cannot be made. -/
theorem negatedSum_fails : ∃ s, Store.made? Compound.fourNumbers = some s ∧
    (∀ x ∈ negatedSum.atoms, isAtom s x = true) ∧ ∀ v t, negatedSum.build s ≠ (.ok v, t) := by
  obtain ⟨s, hs, h⟩ := (Option.any_eq_true _ _).mp (show (Store.made? Compound.fourNumbers).any
    (fun s => negatedSum.atoms.all (isAtom s) && !negatedSum.composable s) = true by
      decide +kernel)
  simp only [Bool.and_eq_true, List.all_eq_true, Bool.not_eq_true'] at h
  refine ⟨s, hs, h.1, fun v t hmake => ?_⟩
  have he := composable_of_build (built_of_made hs) (.refl (built_of_made hs)) h.1 hmake
  rw [h.2] at he
  cases he

end Formula

end Types

end ProgramTree
