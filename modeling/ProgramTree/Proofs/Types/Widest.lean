/-
The type of a compound.

Compounds are made of leaves by binary operators, by the operators on truth values and by
groups, in any shape. Each operator has the wider one of the types of its operands, the left
one if none is wider. So the type of the whole is that of the first one among the widest
leaves from left to right, and neither the bracketing nor the operators matter to it.
-/
import Mathlib
import ProgramTree.Proofs.Expression
import ProgramTree.Proofs.Types.Operators

/-- The first one of the largest in two lists, one after the other. -/
theorem List.mem_argmax_append {α β : Type} [LinearOrder β] {f : α → β} {l m : List α} {x y : α}
    (hx : x ∈ l.argmax f) (hy : y ∈ m.argmax f) :
    (if f x < f y then y else x) ∈ (l ++ m).argmax f := by
  induction l generalizing x with
  | nil => cases hx
  | cons a l ih =>
    rw [List.cons_append, List.argmax_cons]
    rw [List.argmax_cons] at hx
    cases hl : l.argmax f with
    | none =>
      obtain rfl := List.argmax_eq_none.mp hl
      obtain rfl : a = x := by simpa using hx
      rw [List.nil_append, Option.mem_def.mp hy]
      simp only [Option.mem_def]
      split <;> rfl
    | some c =>
      rw [Option.mem_def.mp (ih hl)]
      rw [hl] at hx
      simp only [Option.mem_def] at hx ⊢
      grind

namespace ProgramTree

open Look Build

variable {s t u : Store} {v w x y l r : Value}

/-! ## Leaves -/

namespace Store

/-- The size in bytes of the type of a value. -/
def typeSize (s : Store) (v : Value) : Int :=
  match run (do field (← field v .type) .byteSize) s with
  | .ok (.int n) => n
  | _ => 0

/-- Whether a value is an operand whose type is one of the types of values. -/
def isLeaf (s : Store) (v : Value) : Bool :=
  s.isForm v .dataType && match run (field v .type) s with
    | .ok w => s.isForm w .anyType
    | .error _ => false

/-- Types of values are data types, and overload nothing. -/
theorem isForm_anyType (h : s.isForm w .anyType = true) :
    s.isForm w .dataType = true ∧ s.isForm w .dataTypeOps = false := by
  have hall : ∀ f : Form, f.isA .anyType = true →
      f.isA .dataType = true ∧ f.isA .dataTypeOps = false := by
    intro f
    cases f <;> decide
  obtain ⟨f, hf, hisA⟩ := isForm_iff.mp h
  simp only [isForm, hf, Option.any_some]
  exact hall f hisA

/-- An operand with its type. -/
structure IsOperand (s : Store) (v w : Value) : Prop extends s.HasType v w where
  operand : s.isForm v .dataType = true

theorem exists_isOperand (h : s.isLeaf v = true) : ∃ w, s.IsOperand v w := by
  simp only [isLeaf, Bool.and_eq_true] at h
  cases hw : run (field v .type) s with
  | error e => simp [hw] at h
  | ok w =>
    rw [hw] at h
    obtain ⟨hdata, hplain⟩ := isForm_anyType h.2
    exact ⟨w, ⟨hw, hdata, hplain⟩, h.1⟩

/-- A later store: it is built, what was there is kept, and containers only grew. -/
structure Grown (s t : Store) : Prop where
  built : Built t
  kept : s.Kept t
  more : s.Extends t

theorem Grown.trans (hst : s.Grown t) (htu : t.Grown u) : s.Grown u :=
  ⟨htu.built, hst.kept.trans htu.kept, hst.more.trans htu.more⟩

theorem Grown.refl (hs : Built s) : s.Grown s :=
  ⟨hs, fun _ _ hn => hn, .refl s⟩

theorem IsOperand.grown (h : s.IsOperand v w) (hst : s.Grown t) : t.IsOperand v w :=
  ⟨h.toHasType.kept hst.kept, hst.more.isForm h.operand⟩

/-- What a constructor with accepted arguments makes out of a built store is a later store. -/
theorem grown_construct {form : Form} {given : List (Field × Value)} {a : Address} (hs : Built s)
    (haccepts : s.accepts form [] given = true) (h : construct form [] given s = (.ok a, t))
    (hkept : s.Kept t) : s.Grown t ∧ t.formOf? (.ref a) = some form := by
  obtain ⟨-, hmore, hform⟩ := construct_sound hs.sound haccepts h
  exact ⟨⟨hs.construct haccepts h, hkept, hmore⟩, hform⟩

/-- The size of the type of a leaf. -/
theorem HasType.typeSize (h : s.HasType v w) (hs : Built s) : s.typeSize v = s.byteSize w := by
  rw [Store.typeSize, run_bind, h.read, ok_bind, hs.run_byteSize h.data fun _ _ hn => hn]

end Store

/-! ## Compounds -/

namespace Types

/-- What joins two operands: an operator with any code, or one on truth values. -/
inductive Joint
  | code (text : String)
  | gate (g : Target.Gate)
deriving DecidableEq, Repr

namespace Joint

/-- The form of operators with the joint. -/
def form : Joint → Form
  | code _ => .binaryOp
  | gate g => g.form

/-- The arguments of an operator with the joint. -/
def given (x y : Value) : Joint → List (Field × Value)
  | code text => [(.opCode, .text text), (.lhs, x), (.rhs, y)]
  | gate _ => [(.lhs, x), (.rhs, y)]

end Joint

/-- Where a node is said to stand: its place in the source, and the container it is added to. -/
structure Spot where
  loc : Option Value
  parent : Option Value
deriving DecidableEq, Repr

namespace Spot

/-- The arguments for a spot. -/
def given (p : Spot) : List (Field × Value) :=
  p.loc.toList.map ((.loc, ·)) ++ p.parent.toList.map ((.parent, ·))

/-- Whether a spot is in a store. -/
def fits (s : Store) (p : Spot) : Bool :=
  p.loc.all (s.isForm · .place) && p.parent.all (Hint.growing.maybe.meets s)

theorem fits_extends {p : Spot} (h : p.fits s = true) (hst : s.Extends t) : p.fits t = true := by
  obtain ⟨loc, parent⟩ := p
  simp only [fits, Bool.and_eq_true] at h ⊢
  refine ⟨?_, ?_⟩
  · cases loc with
    | none => rfl
    | some v => exact hst.isForm h.1
  · cases parent with
    | none => rfl
    | some v => exact Hint.meets_extends (h := .maybe .growing) hst h.2

/-- Nodes of any form may be given a spot. -/
theorem accepts_given {p : Spot} {f : Form} (hf : f.isA .node = true) (h : p.fits s = true) :
    s.accepts f [] p.given = true := by
  have hall : ∀ f : Form, f.isA .node = true →
      f.expects .loc = some (.node .place) ∧ f.expects .parent = some (.maybe .growing) := by
    intro f
    cases f <;> decide
  obtain ⟨loc, parent⟩ := p
  simp only [fits, Bool.and_eq_true] at h
  simp only [Store.accepts, given, List.all_append, List.all_nil, Bool.and_true, Bool.and_eq_true]
  refine ⟨?_, ?_⟩
  · cases loc with
    | none => rfl
    | some v => simpa [(hall f hf).1, Hint.meets] using h.1
  · cases parent with
    | none => rfl
    | some v => simpa [(hall f hf).2] using h.2

theorem meets_parent {p : Spot} (h : p.fits s = true) :
    Hint.growing.maybe.meets s (p.parent.getD .none) = true := by
  simp only [fits, Bool.and_eq_true] at h
  cases hp : p.parent with
  | none => rfl
  | some v => simpa [hp] using h.2

end Spot

theorem accepts_append {f : Form} {g h : List (Field × Value)} :
    s.accepts f [] (g ++ h) = (s.accepts f [] g && s.accepts f [] h) := by
  simp only [Store.accepts, List.all_append, List.all_nil, Bool.and_true]

namespace Joint

theorem isA_form (j : Joint) : j.form.isA .binaryOp = true := by
  cases j with
  | code text => rfl
  | gate g => cases g <;> decide

theorem fill_given (j : Joint) (p : Spot) (x y : Value) : ∃ args,
    Arguments.fill j.form (j.given x y ++ p.given) = .ok args ∧ args.get .lhs = x ∧
      args.get .rhs = y ∧ args.get .parent = p.parent.getD .none := by
  obtain ⟨loc, parent⟩ := p
  cases j with
  | code text => cases loc <;> cases parent <;> exact ⟨_, rfl, rfl, rfl, rfl⟩
  | gate g => cases g <;> cases loc <;> cases parent <;> exact ⟨_, rfl, rfl, rfl, rfl⟩

theorem accepts_given (j : Joint) (hx : s.isForm x .dataType = true)
    (hy : s.isForm y .dataType = true) : s.accepts j.form [] (j.given x y) = true := by
  have hall : ∀ f : Form, f.isA .binaryOp = true → f.expects .lhs = some (.node .dataType) ∧
      f.expects .rhs = some (.node .dataType) ∧ f.expects .opCode = some .text := by
    intro f
    cases f <;> decide
  obtain ⟨hl, hr, hc⟩ := hall j.form j.isA_form
  cases j with
  | code text => simp [Store.accepts, given, hl, hr, hc, Hint.meets, hx, hy, Hint.isText]
  | gate g => simp [Store.accepts, given, hl, hr, Hint.meets, hx, hy]

/-- One more operator: it is made, and its type is the wider one. -/
theorem construct_join (j : Joint) {p : Spot} (hs : Built s) (hp : p.fits s = true)
    (hl : s.IsOperand x l) (hr : s.IsOperand y r) :
    ∃ a t, construct j.form [] (j.given x y ++ p.given) s = (.ok a, t) ∧ s.Grown t ∧
      t.formOf? (.ref a) = some j.form ∧ t.IsOperand (.ref a) (s.wider l r) := by
  obtain ⟨args, hargs, rfl, rfl, hparent⟩ := j.fill_given p x y
  obtain ⟨a, t, hmake, hkept, htype⟩ := construct_operator hs j.isA_form hargs
    (hparent ▸ Spot.meets_parent hp) hl.toHasType hr.toHasType
  have hnode : j.form.isA .node = true := Form.isA_trans j.isA_form (by decide)
  have haccepts := accepts_append.trans (Bool.and_eq_true_iff.mpr
    ⟨j.accepts_given hl.operand hr.operand, Spot.accepts_given hnode hp⟩)
  obtain ⟨hgrown, hform⟩ := Store.grown_construct hs haccepts hmake hkept
  refine ⟨a, t, hmake, hgrown, hform, htype, Store.isForm_iff.mpr ⟨j.form, hform, ?_⟩⟩
  exact Form.isA_trans j.isA_form (by decide)

end Joint

/-- One more group: it is made, and its type is that of what stands in it. -/
theorem construct_parenthesized {p : Spot} (hs : Built s) (hp : p.fits s = true)
    (hx : s.IsOperand x w) :
    ∃ a t, construct .parenthesizedExpr [] ([(.value, x)] ++ p.given) s = (.ok a, t) ∧
      s.Grown t ∧ t.IsOperand (.ref a) w := by
  obtain ⟨args, hargs, rfl, hparent⟩ : ∃ args,
      Arguments.fill .parenthesizedExpr ([(.value, x)] ++ p.given) = .ok args ∧
        args.get .value = x ∧ args.get .parent = p.parent.getD .none := by
    obtain ⟨loc, parent⟩ := p
    cases loc <;> cases parent <;> exact ⟨_, rfl, rfl, rfl⟩
  obtain ⟨a, t, hmake, hkept, htype⟩ := construct_group hargs
    (hparent ▸ Spot.meets_parent hp) hx.toHasType
  have hexpr : s.accepts .parenthesizedExpr [] [(.value, args.get .value)] = true := by
    obtain ⟨f, hf, hisA⟩ := Store.isForm_iff.mp hx.operand
    have hvalue : s.isForm (args.get .value) .expr = true :=
      Store.isForm_iff.mpr ⟨f, hf, Form.isA_trans hisA (by decide)⟩
    have hhint : Form.parenthesizedExpr.expects .value = some (.node .expr) := by decide
    simp [Store.accepts, hhint, Hint.meets, hvalue]
  have haccepts := accepts_append.trans (Bool.and_eq_true_iff.mpr
    ⟨hexpr, Spot.accepts_given (by decide) hp⟩)
  obtain ⟨hgrown, hform⟩ := Store.grown_construct hs haccepts hmake hkept
  exact ⟨a, t, hmake, hgrown, htype, Store.isForm_iff.mpr ⟨_, hform, by decide⟩⟩

/-- Leaves that are joined and grouped. -/
inductive Compound
  | leaf (v : Value)
  | join (j : Joint) (p : Spot) (left right : Compound)
  | group (p : Spot) (inner : Compound)
deriving Repr

namespace Compound

/-- The leaves from left to right. -/
def leaves : Compound → List Value
  | leaf v => [v]
  | join _ _ l r => l.leaves ++ r.leaves
  | group _ e => e.leaves

/-- Whether the spots in a compound are in a store. -/
def placed (s : Store) : Compound → Bool
  | leaf _ => true
  | join _ p l r => p.fits s && l.placed s && r.placed s
  | group p e => p.fits s && e.placed s

/-- Makes the nodes of a compound, operands first. -/
def build : Compound → Build Value
  | leaf v => pure v
  | join j p l r => do
    let x ← l.build
    let y ← r.build
    return .ref (← construct j.form [] (j.given x y ++ p.given))
  | group p e => do
    let x ← e.build
    return .ref (← construct .parenthesizedExpr [] ([(.value, x)] ++ p.given))

/-- Compounds can be made, also later, and their type is that of the first widest leaf. -/
theorem build_grown {e : Compound} (hs : Built s) (hst : s.Grown t) (he : e.placed s = true)
    (hleaves : ∀ v ∈ e.leaves, s.isLeaf v = true) :
    ∃ v u, e.build t = (.ok v, u) ∧ t.Grown u ∧
      ∃ x ∈ e.leaves.argmax s.typeSize, ∃ w, s.IsOperand x w ∧ u.IsOperand v w := by
  induction e generalizing t with
  | leaf v =>
    obtain ⟨w, hw⟩ := Store.exists_isOperand (hleaves v (List.mem_singleton_self v))
    exact ⟨v, t, rfl, .refl hst.built, v, rfl, w, hw, hw.grown hst⟩
  | join j p l r ihl ihr =>
    simp only [placed, Bool.and_eq_true] at he
    obtain ⟨⟨hp, hl⟩, hr⟩ := he
    obtain ⟨hlefts, hrights⟩ := List.forall_mem_append.mp hleaves
    obtain ⟨a, t₁, hleft, hgrown₁, x, hx, wx, hwx, ha⟩ := ihl hst hl hlefts
    obtain ⟨b, t₂, hright, hgrown₂, y, hy, wy, hwy, hb⟩ := ihr (hst.trans hgrown₁) hr hrights
    have hlater := hst.trans (hgrown₁.trans hgrown₂)
    obtain ⟨c, u, hmake, hgrown₃, -, hc⟩ := j.construct_join hgrown₂.built
      (Spot.fits_extends hp hlater.more) (ha.grown hgrown₂) hb
    refine ⟨.ref c, u, ?_, hgrown₁.trans (hgrown₂.trans hgrown₃), _,
      List.mem_argmax_append hx hy, t₂.wider wx wy, ?_, hc⟩
    · exact (andThen_of_eq hleft).trans ((andThen_of_eq hright).trans (andThen_of_eq hmake))
    · rw [hwx.typeSize hs, hwy.typeSize hs, Store.wider, hlater.kept.byteSize hwx.data,
        hlater.kept.byteSize hwy.data]
      split
      · exact hwy
      · exact hwx
  | group p e ih =>
    simp only [placed, Bool.and_eq_true] at he
    obtain ⟨v, t₁, hinner, hgrown₁, x, hx, w, hw, hv⟩ := ih hst he.2 hleaves
    obtain ⟨c, u, hmake, hgrown₂, hc⟩ := construct_parenthesized hgrown₁.built
      (Spot.fits_extends he.1 (hst.trans hgrown₁).more) hv
    exact ⟨.ref c, u, (andThen_of_eq hinner).trans (andThen_of_eq hmake),
      hgrown₁.trans hgrown₂, x, hx, w, hw, hc⟩

/-- **Types of compounds.** A compound of leaves in a built store can be made, and its type is
that of the first widest leaf. Another compound with the same leaves, made next, has the very
same type, however its leaves are bracketed and joined. -/
theorem build_firstWidest {e : Compound} (hs : Built s) (he : e.placed s = true)
    (hleaves : ∀ v ∈ e.leaves, s.isLeaf v = true) :
    ∃ v t x w, e.build s = (.ok v, t) ∧ x ∈ e.leaves.argmax s.typeSize ∧
      run (field x .type) s = .ok w ∧ run (field v .type) t = .ok w ∧
      ∀ e' : Compound, e'.placed s = true → e'.leaves = e.leaves →
        ∃ v' t', e'.build t = (.ok v', t') ∧ run (field v' .type) t' = .ok w := by
  obtain ⟨v, t, hmake, hgrown, x, hx, w, hw, hv⟩ := build_grown hs (.refl hs) he hleaves
  refine ⟨v, t, x, w, hmake, hx, hw.read, hv.read, fun e' he' heq => ?_⟩
  obtain ⟨v', t', hmake', -, x', hx', w', hw', hv'⟩ := build_grown hs hgrown he' (heq ▸ hleaves)
  obtain rfl : x' = x := Option.mem_unique hx' (heq ▸ hx)
  obtain rfl : w' = w := Except.ok.inj (hw'.read.symm.trans hw.read)
  exact ⟨v', t', hmake', hv'.read⟩

/-- The literals 1.0, 1 in eight bits, and 2 and 3 in thirty-two bits. -/
def fourNumbers : List Making :=
  [.node .literalFloat32 [] [(.value, .float (Double.ofInt 1))],
   .node .literalInt8 [] [(.value, .int 1)], .node .literalInt32 [] [(.value, .int 2)],
   .node .literalInt32 [] [(.value, .int 3)]]

/-- `(1.0 + 1) & (2 * 3)`. -/
def pairedNumbers : Compound :=
  .join (.gate .and) ⟨none, none⟩
    (.group ⟨none, none⟩ (.join (.code "+") ⟨none, none⟩ (.leaf (.ref 21)) (.leaf (.ref 25))))
    (.join (.code "*") ⟨some (.ref Shared.noPlace), none⟩ (.leaf (.ref 29)) (.leaf (.ref 33)))

/-- `1.0 < ((1 ^ 2) - 3)`. -/
def nestedNumbers : Compound :=
  .join (.code "<") ⟨none, none⟩ (.leaf (.ref 21)) (.group ⟨none, none⟩
    (.join (.code "-") ⟨none, none⟩
      (.join (.gate .xor) ⟨none, none⟩ (.leaf (.ref 25)) (.leaf (.ref 29))) (.leaf (.ref 33))))

/-- Both have the type of the 2, and not that of the 3, which is as wide. -/
theorem fourNumbers_firstWidest : ∃ s v t v' t', Store.made? fourNumbers = some s ∧
    run (field (.ref 29) .type) s = .ok (.ref 31) ∧ pairedNumbers.build s = (.ok v, t) ∧
    run (field v .type) t = .ok (.ref 31) ∧ nestedNumbers.build t = (.ok v', t') ∧
    run (field v' .type) t' = .ok (.ref 31) := by
  obtain ⟨s, hs, h⟩ := (Option.any_eq_true _ _).mp (show (Store.made? fourNumbers).any (fun s =>
    pairedNumbers.placed s && nestedNumbers.placed s && pairedNumbers.leaves.all s.isLeaf &&
    decide (pairedNumbers.leaves.argmax s.typeSize = some (.ref 29)) &&
    decide (run (field (.ref 29) .type) s = .ok (.ref 31))) = true by decide +kernel)
  simp only [Bool.and_eq_true, List.all_eq_true, decide_eq_true_eq] at h
  obtain ⟨⟨⟨⟨hpaired, hnested⟩, hleaves⟩, hwidest⟩, htype⟩ := h
  obtain ⟨v, t, x, w, hmake, hx, hw, hv, hothers⟩ :=
    build_firstWidest (built_of_made hs) hpaired hleaves
  obtain rfl : .ref 29 = x := Option.mem_unique hwidest hx
  obtain rfl : .ref 31 = w := Except.ok.inj (htype.symm.trans hw)
  obtain ⟨v', t', hmake', hv'⟩ := hothers nestedNumbers hnested rfl
  exact ⟨s, v, t, v', t', hs, htype, hmake, hv, hmake', hv'⟩

end Compound

/-! ## Numbers -/

/-- The literals of floating-point numbers. -/
def floatLiterals : List Form :=
  [.literalFloat16, .literalFloat32, .literalFloat64]

/-- Whether a value is a literal of an integer. -/
def isInteger (s : Store) (v : Value) : Bool :=
  (s.formOf? v).any (Target.integerLiterals.contains ·)

/-- Whether a value is a literal of a floating-point number. -/
def isFloat (s : Store) (v : Value) : Bool :=
  (s.formOf? v).any (floatLiterals.contains ·)

/-- Literals of numbers are leaves. The types of floating-point numbers are those without a
size. -/
theorem number_inv (hs : Built s) (hv : isInteger s v = true ∨ isFloat s v = true) :
    s.isLeaf v = true ∧ ∃ w, s.HasType v w ∧ (s.isForm w .floating = true ↔ isFloat s v = true) ∧
      (0 < s.byteSize w ↔ ¬isFloat s v = true) := by
  have hall : ∀ f ∈ Target.integerLiterals ++ floatLiterals, f.isA .dataType = true ∧
      f.madeType?.any (fun g => g.isA .anyType && g.isA .floating == floatLiterals.contains f &&
        decide (0 < g.byteSize?.getD 0) == !floatLiterals.contains f) = true := by
    decide
  obtain ⟨f, hf, hmem⟩ : ∃ f, s.formOf? v = some f ∧
      f ∈ Target.integerLiterals ++ floatLiterals := by
    cases hf : s.formOf? v with
    | none => simp [isInteger, isFloat, hf] at hv
    | some f => exact ⟨f, rfl, by simpa [isInteger, isFloat, hf] using hv⟩
  obtain ⟨hdata, hany⟩ := hall f hmem
  obtain ⟨g, hg, htable⟩ := (Option.any_eq_true _ _).mp hany
  simp only [Bool.and_eq_true, beq_iff_eq] at htable
  obtain ⟨⟨htype, hfloating⟩, hsize⟩ := htable
  obtain ⟨w, hw, hform⟩ := hs.exists_type hf hg
  have hisForm : ∀ k, s.isForm w k = g.isA k := fun k => by
    rw [Store.isForm, hform, Option.any_some]
  have hanyType := (hisForm .anyType).trans htype
  have hleaf : s.isLeaf v = true := by
    simp only [Store.isLeaf, hw, hanyType, Bool.and_true]
    exact Store.isForm_iff.mpr ⟨f, hf, hdata⟩
  obtain ⟨hdata', hplain⟩ := Store.isForm_anyType hanyType
  refine ⟨hleaf, w, ⟨hw, hdata', hplain⟩, ?_, ?_⟩
  · rw [hisForm, hfloating, isFloat, hf, Option.any_some]
  · rw [isFloat, hf, Option.any_some, Store.byteSize, hform, Option.bind_some,
      ← decide_eq_true_iff (p := 0 < g.byteSize?.getD 0), hsize, Bool.not_eq_true',
      Bool.not_eq_true]

/-- **Mixed numbers.** A compound of integers and floating-point numbers can be made. Its type
is floating only if all the numbers are: integers have sizes, floating-point numbers do not. -/
theorem build_floating_iff {e : Compound} (hs : Built s) (he : e.placed s = true)
    (hleaves : ∀ v ∈ e.leaves, isInteger s v = true ∨ isFloat s v = true) :
    ∃ v t w, e.build s = (.ok v, t) ∧ run (field v .type) t = .ok w ∧
      (t.isForm w .floating = true ↔ ∀ x ∈ e.leaves, isFloat s x = true) := by
  obtain ⟨v, t, hmake, hgrown, x, hx, w, hw, hv⟩ := e.build_grown hs (.refl hs) he fun v hmem =>
    (number_inv hs (hleaves v hmem)).1
  refine ⟨v, t, w, hmake, hv.read, ?_⟩
  have hmem : x ∈ e.leaves := List.argmax_mem hx
  obtain ⟨-, w', hw', hfloating, hsize⟩ := number_inv hs (hleaves x hmem)
  obtain rfl : w' = w := Except.ok.inj (hw'.read.symm.trans hw.read)
  rw [hgrown.kept.isForm hw.data, hfloating]
  refine ⟨fun hfloat y hy => ?_, fun hall => hall x hmem⟩
  -- No leaf is wider than the widest one, which has no size.
  obtain ⟨-, wy, hwy, -, hsize'⟩ := number_inv hs (hleaves y hy)
  have hle := List.le_of_mem_argmax hy hx
  rw [hwy.typeSize hs, hw'.typeSize hs] at hle
  by_contra hinteger
  exact hsize.mp (lt_of_lt_of_le (hsize'.mpr hinteger) hle) hfloat

/-- `1.0 * 1.0`. -/
def floatProduct : Compound :=
  .join (.code "*") ⟨none, none⟩ (.leaf (.ref 21)) (.leaf (.ref 21))

theorem floatProduct_floating : ∃ s v t w, Store.made? Compound.fourNumbers = some s ∧
    (∀ x ∈ floatProduct.leaves, isFloat s x = true) ∧ floatProduct.build s = (.ok v, t) ∧
    run (field v .type) t = .ok w ∧ t.isForm w .floating = true := by
  obtain ⟨s, hs, h⟩ := (Option.any_eq_true _ _).mp (show (Store.made? Compound.fourNumbers).any
    (fun s => floatProduct.placed s && floatProduct.leaves.all (isFloat s)) = true by
      decide +kernel)
  simp only [Bool.and_eq_true, List.all_eq_true] at h
  obtain ⟨v, t, w, hmake, hw, hiff⟩ := build_floating_iff (built_of_made hs) h.1 fun v hv =>
    .inr (h.2 v hv)
  exact ⟨s, v, t, w, hs, h.2, hmake, hw, hiff.mpr h.2⟩

/-- `1 + 1.0`, the integer in eight bits. -/
def mixedSum : Compound :=
  .join (.code "+") ⟨none, none⟩ (.leaf (.ref 25)) (.leaf (.ref 21))

/-- The sum has a float among its leaves, and is an integer of eight bits. -/
theorem mixedSum_narrowed : ∃ s v t w, Store.made? Compound.fourNumbers = some s ∧
    isFloat s (.ref 21) = true ∧ mixedSum.build s = (.ok v, t) ∧
    run (field v .type) t = .ok w ∧ t.formOf? w = some .int8 ∧
    t.isForm w .floating = false := by
  obtain ⟨s, hs, h⟩ := (Option.any_eq_true _ _).mp (show (Store.made? Compound.fourNumbers).any
    (fun s => isFloat s (.ref 21) && match mixedSum.build s with
      | (.ok v, t) => decide (run (field v .type) t = .ok (.ref 27) ∧
        t.formOf? (.ref 27) = some .int8 ∧ t.isForm (.ref 27) .floating = false)
      | (.error _, _) => false) = true by decide +kernel)
  simp only [Bool.and_eq_true] at h
  obtain ⟨hfloat, hsum⟩ := h
  split at hsum
  · next v t hmake =>
    obtain ⟨hw, hform, hnot⟩ := of_decide_eq_true hsum
    exact ⟨s, v, t, _, hs, hfloat, hmake, hw, hform, hnot⟩
  · cases hsum

end Types

end ProgramTree
