/-
Returned operations, from the node to the text and back.

A node that gives back an operation is converted, written and touched up. `Holds` says
which operation a node is, by its fields alone; the conversion makes the term of just
that operation, the writer its text, and the touch-up parentheses around the first two
names. What the text says then is the matter of `Parentheses`: the operation itself, or
another one, or nothing.
-/
import ProgramTree.Proofs.Conversion
import ProgramTree.Proofs.Parentheses

open ProgramTree.Look ProgramTree.Target.Convert ProgramTree.Target.Reading

namespace ProgramTree.Target

/-! ## Nodes -/

/-- The forms of whole numbers. -/
def integerLiterals : List Form :=
  [.literalInt8, .literalInt16, .literalInt32, .literalInt64, .literalInt128, .literalUInt8,
   .literalUInt16, .literalUInt32, .literalUInt64, .literalUInt128]

/-- The operation that a value holds: variables with names, numbers that are not
negative, and binary operators with a sign. -/
inductive Holds (s : Store) : Value → Operation → Prop
  | use {v : Value} {id : String} (hv : s.formOf? v = some .variableUse)
      (hname : run (field v .name) s = .ok (.text id)) (hid : IsName id) : Holds s v (.use id)
  | number {v : Value} {g : Form} {n : Nat} (hv : s.formOf? v = some g)
      (hg : g ∈ integerLiterals) (hvalue : run (field v .value) s = .ok (.int n)) :
      Holds s v (.number n)
  | op {v l r : Value} {code : String} {sign : BinarySign} {left right : Operation}
      (hv : s.formOf? v = some .binaryOp) (hcode : run (field v .opCode) s = .ok (.text code))
      (hsign : BinarySign.ofText? code = some sign) (hl : run (field v .lhs) s = .ok l)
      (hr : run (field v .rhs) s = .ok r) (hleft : Holds s l left) (hright : Holds s r right) :
      Holds s v (.op sign left right)

/-- A node that gives back an operation. -/
structure Returns (s : Store) (v : Value) (e : Operation) : Prop where
  form : s.formOf? v = some .functionReturn
  value : ∃ w, run (field v .value) s = .ok w ∧ Holds s w e

variable {s : Store} {v : Value} {e : Operation}

namespace Holds

/-- Held operations have proper names. -/
theorem named (h : Holds s v e) : e.Named := by
  induction h with
  | use _ _ hid => exact hid
  | number => trivial
  | op _ _ _ _ _ _ _ ihl ihr => exact ⟨ihl, ihr⟩

/-- Operations are nodes, and none of them is a collection. -/
theorem form (h : Holds s v e) : ∃ g, s.formOf? v = some g ∧ g.isA .nodeList = false := by
  cases h with
  | use hv => exact ⟨_, hv, rfl⟩
  | op hv => exact ⟨_, hv, rfl⟩
  | number hv hg =>
    refine ⟨_, hv, ?_⟩
    simp only [integerLiterals, List.mem_cons, List.not_mem_nil, or_false] at hg
    rcases hg with rfl | rfl | rfl | rfl | rfl | rfl | rfl | rfl | rfl | rfl <;> rfl

theorem ref (h : Holds s v e) : ∃ a, v = .ref a ∧ a < s.cells.size := by
  obtain ⟨g, hg, -⟩ := h.form
  exact Store.ref_of_formOf? hg

/-- **Conversion.** Deep enough, a held operation becomes its term. -/
theorem run_toDepth (h : Holds s v e) :
    ∀ {d : Nat}, e.height ≤ d → run (toDepth d v) s = .ok e.term := by
  induction h with
  | @use v id hv hname hid =>
    intro d hd
    obtain ⟨n, hn, hform⟩ := Option.map_eq_some_iff.mp hv
    obtain ⟨d, rfl⟩ := Nat.exists_eq_add_of_le' hd
    refine run_step hn (hform ▸ rfl) (m := ⟨.oneOf ["Name"], variableUse⟩) ?_ rfl
    simp only [variableUse, run_bind, run_field?_of_ok hname, ok_bind]
    rfl
  | @number v g n hv hg hvalue =>
    intro d hd
    obtain ⟨node, hn, rfl⟩ := Option.map_eq_some_iff.mp hv
    obtain ⟨d, rfl⟩ := Nat.exists_eq_add_of_le' hd
    have hm : method? node.form = some ⟨.oneOf ["Constant"], valueOr (.int 0)⟩ := by
      generalize node.form = g at hg
      simp only [integerLiterals, List.mem_cons, List.not_mem_nil, or_false] at hg
      rcases hg with rfl | rfl | rfl | rfl | rfl | rfl | rfl | rfl | rfl | rfl <;> rfl
    refine run_step hn hm ?_ rfl
    simp only [valueOr, run_bind, run_field?_of_ok hvalue, ok_bind]
    rfl
  | @op v l r code sign left right hv hcode hsign hl hr hleft hright ihl ihr =>
    intro d hd
    obtain ⟨n, hn, hform⟩ := Option.map_eq_some_iff.mp hv
    have hpos : 1 ≤ d := Nat.le_trans (Nat.le_add_left 1 _) hd
    obtain ⟨d, rfl⟩ := Nat.exists_eq_add_of_le' hpos
    have hheight : max left.height right.height ≤ d := Nat.le_of_succ_le_succ hd
    have hfields : ∀ f ∈ [Field.lhs, .rhs, .opCode], ∃ w, run (field v f) s = .ok w := by
      simp [hl, hr, hcode]
    have hcodeSign : run (signOf BinarySign.ofText? (.text code)) s = .ok (some sign) := by
      rw [← hsign]
      rfl
    refine run_step hn (hform ▸ rfl) (m := ⟨.oneOf ["BinOp", "Call"], binary⟩) ?_ rfl
    rw [binary, run_requiring hfields]
    simp only [run_bind, hcode, ok_bind, hcodeSign, run_visitField, hl, hr,
      ihl (Nat.le_trans (Nat.le_max_left ..) hheight),
      ihr (Nat.le_trans (Nat.le_max_right ..) hheight), run_pure]
    rfl

/-- A held operation is held at no more levels than there are cells, so it becomes its
term as deep as the conversion of what holds it goes. -/
theorem run_toDepth_cells (h : Holds s v e) : run (toDepth s.cells.size v) s = .ok e.term := by
  obtain ⟨a, rfl, -⟩ := h.ref
  obtain ⟨x, hx, hle⟩ : ∃ x, Holds s (.ref a) x ∧ x.height ≤ s.cells.size := by
    refine mem_of_bounded_steps (P := fun d a => ∃ x, Holds s (.ref a) x ∧ x.height ≤ d)
      ?_ ?_ ?_ ⟨e, h, Nat.le_refl _⟩
    · rintro b ⟨x, -, hle⟩
      cases x <;> simp [Operation.height] at hle
    · rintro d b ⟨x, hx, -⟩
      obtain ⟨c, hc, hlt⟩ := hx.ref
      obtain rfl := Value.ref.inj hc
      exact hlt
    · rintro d d' hstep b ⟨x, hx, hle⟩
      cases hx with
      | use hv hname hid => exact ⟨_, .use hv hname hid, Nat.le_add_left 1 d'⟩
      | number hv hg hvalue => exact ⟨_, .number hv hg hvalue, Nat.le_add_left 1 d'⟩
      | op hv hcode hsign hl hr hleft hright =>
        have hheight := Nat.le_of_succ_le_succ hle
        obtain ⟨bl, rfl, -⟩ := hleft.ref
        obtain ⟨br, rfl, -⟩ := hright.ref
        obtain ⟨xl, hxl, hlel⟩ := hstep bl ⟨_, hleft, Nat.le_trans (Nat.le_max_left ..) hheight⟩
        obtain ⟨xr, hxr, hler⟩ := hstep br ⟨_, hright, Nat.le_trans (Nat.le_max_right ..) hheight⟩
        exact ⟨_, .op hv hcode hsign hl hr hxl hxr,
          Nat.succ_le_succ (Nat.max_le.mpr ⟨hlel, hler⟩)⟩
  -- Deep enough for both, the two conversions are the same one.
  have hsame : e.term = x.term := by
    have he := h.run_toDepth (Nat.le_max_left e.height x.height)
    rw [hx.run_toDepth (Nat.le_max_right e.height x.height)] at he
    exact (Except.ok.inj he).symm
  rw [hsame]
  exact hx.run_toDepth hle

end Holds

namespace Returns

/-- The term of a node that gives back an operation. -/
theorem run_term (h : Returns s v e) : run (term v) s = .ok (.giveBack e.term) := by
  obtain ⟨w, hw, hholds⟩ := h.value
  obtain ⟨n, hn, hform⟩ := Option.map_eq_some_iff.mp h.form
  obtain ⟨g, hg, hlist⟩ := hholds.form
  rw [Convert.run_term]
  refine run_step hn (hform ▸ rfl) (m := ⟨.oneOf ["Return"], ofOptionalValue .giveBack⟩) ?_ rfl
  simp only [ofOptionalValue, visitTrue, run_bind,
    run_truthyField?_of_ok hw (run_truthy_of_form hg hlist), ok_bind, if_true,
    hholds.run_toDepth_cells, run_pure]

/-- The text of a node that gives back an operation. -/
theorem run_source (h : Returns s v e) :
    run (source Margin.start v) s = .ok (String.ofList e.touched) := by
  rw [Look.source, run_rescue]
  simp only [run_bind, h.run_term, ok_bind, run_ofOutcome, e.source_giveBack, run_pure,
    String.toList_ofList]
  rfl

theorem named (h : Returns s v e) : e.Named := by
  obtain ⟨w, -, hholds⟩ := h.value
  exact hholds.named

end Returns

/-- **Returned operations.** The text of a node that gives back an operation says what
was converted exactly if the touch-up does not close its parentheses inside the right
operand of the first sign. If it does, all that the text can say is the regrouped
operation, which is another one. Texts of which this is not true determine the
operation, and so its value, whatever names, numbers and signs mean. -/
theorem returned_operation_reads_iff (h : Returns s v e) :
    ∃ text, run (source Margin.start v) s = .ok text ∧
      run (term v) s = .ok (.giveBack e.term) ∧
      (Reads text (.giveBack e.term) ↔ e.straddles = false) ∧
      (e.straddles = true → ∀ t, Reads text t → t = .giveBack e.regroup.term ∧ e.regroup ≠ e) ∧
      ∀ (s' : Store) (v' : Value) (e' : Operation), Returns s' v' e' →
        run (source Margin.start v') s' = .ok text → e.straddles = false → e'.straddles = false →
        ∀ (α : Type) (name : String → α) (number : Nat → α) (apply : BinarySign → α → α → α),
          e.eval name number apply = e'.eval name number apply := by
  have hiff := e.reads_touched_iff h.named
  refine ⟨String.ofList e.touched, h.run_source, h.run_term, hiff,
    fun hstraddles t ht => e.eq_regroup_of_straddles h.named hstraddles ht, ?_⟩
  intro s' v' e' h' hsource he he' α name number apply
  -- Both operations are what the one text says.
  have hreads := hiff.mpr he
  have hreads' := (e'.reads_touched_iff h'.named).mpr he'
  rw [h'.run_source, Except.ok.injEq] at hsource
  rw [hsource] at hreads'
  have hterm := hreads.unique hreads'
  rw [Term.giveBack.injEq] at hterm
  rw [Operation.term_injective hterm]

/-! ## A sum and a product -/

/-- Three returned operations on three variables: a sum, a sum with a product in it, and
a product with a sum in it. -/
def returning : Build Unit := do
  let a ← Build.construct .variableUse [] [(.name, .text "a")]
  let b ← Build.construct .variableUse [] [(.name, .text "b")]
  let c ← Build.construct .variableUse [] [(.name, .text "c")]
  let sum ← Build.construct .binaryOp [] [(.opCode, .text "+"), (.lhs, .ref a), (.rhs, .ref b)]
  let _ ← Build.construct .functionReturn [] [(.value, .ref sum)]
  let product ← Build.construct .binaryOp [] [(.opCode, .text "*"), (.lhs, .ref b), (.rhs, .ref c)]
  let sum' ← Build.construct .binaryOp [] [(.opCode, .text "+"), (.lhs, .ref a), (.rhs, .ref product)]
  let _ ← Build.construct .functionReturn [] [(.value, .ref sum')]
  let product' ← Build.construct .binaryOp []
    [(.opCode, .text "*"), (.lhs, .ref sum), (.rhs, .ref c)]
  let _ ← Build.construct .functionReturn [] [(.value, .ref product')]

/-- The store with the three in it. -/
def returningStore : Store :=
  (returning Store.initial).2

def sumOfNames : Operation :=
  .op .add (.use "a") (.use "b")

def sumOfProduct : Operation :=
  .op .add (.use "a") (.op .mult (.use "b") (.use "c"))

def productOfSum : Operation :=
  .op .mult sumOfNames (.use "c")

/-- The value of a sum or product where the name `c` stands for two and the others for
one. -/
def valueOfNames : Operation → Nat :=
  Operation.eval (fun id => if id = "c" then 2 else 1) (fun n => n)
    fun sign x y => if sign = .add then x + y else x * y

/-- What the constructors left behind, found by running them once. -/
theorem returningStore_nodes :
    NodeWith returningStore (.ref 21) .variableUse [(.name, .text "a")] ∧
    NodeWith returningStore (.ref 25) .variableUse [(.name, .text "b")] ∧
    NodeWith returningStore (.ref 29) .variableUse [(.name, .text "c")] ∧
    NodeWith returningStore (.ref 33) .binaryOp [(.opCode, .text "+"), (.lhs, .ref 21),
      (.rhs, .ref 25)] ∧
    NodeWith returningStore (.ref 35) .functionReturn [(.value, .ref 33)] ∧
    NodeWith returningStore (.ref 36) .binaryOp [(.opCode, .text "*"), (.lhs, .ref 25),
      (.rhs, .ref 29)] ∧
    NodeWith returningStore (.ref 38) .binaryOp [(.opCode, .text "+"), (.lhs, .ref 21),
      (.rhs, .ref 36)] ∧
    NodeWith returningStore (.ref 40) .functionReturn [(.value, .ref 38)] ∧
    NodeWith returningStore (.ref 41) .binaryOp [(.opCode, .text "*"), (.lhs, .ref 33),
      (.rhs, .ref 29)] ∧
    NodeWith returningStore (.ref 43) .functionReturn [(.value, .ref 41)] := by
  decide +kernel

/-- The three nodes give back the three operations. -/
theorem returns_returningStore : Returns returningStore (.ref 35) sumOfNames ∧
    Returns returningStore (.ref 40) sumOfProduct ∧
    Returns returningStore (.ref 43) productOfSum := by
  obtain ⟨⟨ha, hane⟩, ⟨hb, hbne⟩, ⟨hc, hcne⟩, ⟨hsum, hplus, hsl, hsr⟩, ⟨hret, hval⟩,
    ⟨hprod, htimes, hpl, hpr⟩, ⟨hsum', hplus', hsl', hsr'⟩, ⟨hret', hval'⟩,
    ⟨hprod', htimes', hpl', hpr'⟩, ⟨hret'', hval''⟩⟩ := returningStore_nodes
  have haName : Holds returningStore (.ref 21) (.use "a") := .use ha hane (by decide)
  have hbName : Holds returningStore (.ref 25) (.use "b") := .use hb hbne (by decide)
  have hcName : Holds returningStore (.ref 29) (.use "c") := .use hc hcne (by decide)
  have hsumOp : Holds returningStore (.ref 33) sumOfNames :=
    .op hsum hplus rfl hsl hsr haName hbName
  have hprodOp := Holds.op hprod htimes rfl hpl hpr hbName hcName
  exact ⟨⟨hret, _, hval, hsumOp⟩, ⟨hret', _, hval', .op hsum' hplus' rfl hsl' hsr' haName hprodOp⟩,
    ⟨hret'', _, hval'', .op hprod' htimes' rfl hpl' hpr' hsumOp hcName⟩⟩

/-- The returned sum of two names says what it is. -/
theorem returnedSum_reads :
    run (source Margin.start (.ref 35)) returningStore = .ok "return (a + b)" ∧
      Reads "return (a + b)" (.giveBack sumOfNames.term) := by
  obtain ⟨text, hsource, -, hreads, -⟩ := returned_operation_reads_iff returns_returningStore.1
  have htext : text = "return (a + b)" := by
    rw [returns_returningStore.1.run_source, Except.ok.injEq] at hsource
    rw [← hsource]
    decide +kernel
  subst htext
  exact ⟨hsource, hreads.mpr (by decide +kernel)⟩

/-- **Different operations with one text.** The sum with a product in it gets the text of
the product with a sum in it, and that is what the text says. The two have different
values. -/
theorem returnedSumOfProduct_says_productOfSum :
    run (term (.ref 40)) returningStore = .ok (.giveBack sumOfProduct.term) ∧
      run (source Margin.start (.ref 40)) returningStore = .ok "return (a + b) * c" ∧
      ¬ Reads "return (a + b) * c" (.giveBack sumOfProduct.term) ∧
      Reads "return (a + b) * c" (.giveBack productOfSum.term) ∧
      run (source Margin.start (.ref 43)) returningStore = .ok "return (a + b) * c" ∧
      valueOfNames sumOfProduct = 3 ∧ valueOfNames productOfSum = 4 := by
  obtain ⟨-, hsum, hproduct⟩ := returns_returningStore
  have hsumText : String.ofList sumOfProduct.touched = "return (a + b) * c" := by
    decide +kernel
  have hproductText : String.ofList productOfSum.touched = "return (a + b) * c" := by
    decide +kernel
  have hstraddles : sumOfProduct.straddles = true ∧ productOfSum.straddles = false := by
    decide +kernel
  refine ⟨hsum.run_term, hsumText ▸ hsum.run_source, ?_, ?_, hproductText ▸ hproduct.run_source,
    by decide, by decide⟩
  · rw [← hsumText, sumOfProduct.reads_touched_iff hsum.named, hstraddles.1]
    decide
  · rw [← hproductText, productOfSum.reads_touched_iff hproduct.named]
    exact hstraddles.2

end ProgramTree.Target
