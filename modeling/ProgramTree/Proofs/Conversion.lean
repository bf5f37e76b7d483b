/-
One step of a conversion.

The conversion of a node is its form's rule, then a check that the rule's promise
is kept. Each shared part of the rules gets one equation here for its outcome, and
`step_eq_ok` takes a successful step apart again, so the modules after this one
argue about rules and never open the dispatch.

Conversions go down to a depth, and the depth that a store gets is the number of
its cells. `mem_of_bounded_steps` is why that is always enough: sets of cells that
grow step by step stop growing after as many steps as there are cells.
-/
import Mathlib.Data.Finset.Card
import ProgramTree.Proofs.Outcome
import ProgramTree.Target.Convert.Table

namespace ProgramTree.Target.Convert

open Look

variable {s : Store} {v w : Value} {visit : Visit} {t : Term} {f : Field}

/-! ## Parts of rules -/

@[simp] theorem run_visitField (visit : Visit) (v : Value) (f : Field) (s : Store) :
    run (visitField visit v f) s = (run (field v f) s).bind fun w => run (visit w) s := by
  simp only [visitField, run_bind]

@[simp] theorem run_fieldDoc (v : Value) (f : Field) (s : Store) :
    run (fieldDoc v f) s = (run (field v f) s).bind fun w => run (Look.doc w) s := by
  simp only [fieldDoc, run_bind]

/-- A node with all the fields that its rule needs is converted by the rule. -/
theorem run_requiring {fields : List Field} {rule : Rule}
    (h : ∀ g ∈ fields, ∃ w, run (field v g) s = .ok w) :
    run (requiring fields rule visit v) s = run (rule visit v) s := by
  simp only [requiring, run_bind, run_hasAll h, ok_bind, if_true]

/-- A successful conversion of a node that may lack fields is the rule's, or else a
stand-in. -/
theorem requiring_eq_ok {fields : List Field} {rule : Rule}
    (h : run (requiring fields rule visit v) s = .ok t) :
    run (rule visit v) s = .ok t ∨ run (standIn v) s = .ok t := by
  simp only [requiring, run_bind, bind_eq_ok] at h
  obtain ⟨has, -, h⟩ := h
  cases has with
  | true => exact .inl h
  | false => exact .inr h

/-- Stand-ins are constants and names. -/
theorem className_of_standIn (h : run (standIn v) s = .ok t) :
    t.className = "Constant" ∨ t.className = "Name" := by
  have hform : ∀ {t : Term}, run (formConstant v) s = .ok t → t.className = "Constant" := by
    intro t ht
    simp only [formConstant, run_bind, bind_eq_ok, run_pure, Except.ok.injEq] at ht
    obtain ⟨name, -, rfl⟩ := ht
    rfl
  rw [standIn, run_rescue] at h
  split at h
  · next u hu =>
    obtain rfl := Except.ok.inj h
    simp only [run_bind, bind_eq_ok] at hu
    obtain ⟨value, -, hu⟩ := hu
    cases value with
    | some w =>
      simp only [run_bind, bind_eq_ok, run_pure, Except.ok.injEq] at hu
      obtain ⟨text, -, rfl⟩ := hu
      exact .inl rfl
    | none =>
      simp only [run_bind, bind_eq_ok] at hu
      obtain ⟨name, -, hu⟩ := hu
      cases name with
      | some w =>
        simp only [run_bind, bind_eq_ok, run_pure, Except.ok.injEq] at hu
        obtain ⟨text, -, rfl⟩ := hu
        exact .inr rfl
      | none => exact .inl (hform hu)
  · exact .inl (hform h)

/-! ## Steps -/

/-- A step that goes well: the form's rule, and its promise kept. -/
theorem run_step {n : Node} {m : Method} (hn : s.nodeOf? v = some n)
    (hm : method? n.form = some m) (ht : run (m.rule visit v) s = .ok t)
    (hp : m.promise.check t = .ok ()) : run (step visit v) s = .ok t := by
  simp only [step, run_bind, run_node?, ok_bind, hn, Option.bind_some, hm, ht, run_ofOutcome, hp,
    run_pure]

/-- A step goes well in no other way. -/
theorem step_eq_ok (h : run (step visit v) s = .ok t) :
    ∃ n m, s.nodeOf? v = some n ∧ method? n.form = some m ∧ run (m.rule visit v) s = .ok t ∧
      m.promise.check t = .ok () := by
  simp only [step, run_bind, run_node?, ok_bind] at h
  cases hn : s.nodeOf? v with
  | none => simp [hn, bind_eq_ok] at h
  | some n =>
    cases hm : method? n.form with
    | none => simp [hn, hm, bind_eq_ok] at h
    | some m =>
      simp only [hn, Option.bind_some, hm, run_bind, bind_eq_ok, run_ofOutcome, run_pure] at h
      obtain ⟨t', ht, ⟨⟩, hp, heq⟩ := h
      obtain rfl := Except.ok.inj heq
      exact ⟨n, m, rfl, hm, ht, hp⟩

/-- A rule that promises one class keeps its promise with a term of that class only. -/
theorem check_oneOf_eq_ok {classNames : List String} :
    (Promise.oneOf classNames).check t = .ok () ↔ t.className ∈ classNames := by
  simp only [Promise.check]
  by_cases h : t.className ∈ classNames
  · simp [h]
  · simp [h]

/-- The conversion of a value starts as deep as the store has cells. -/
theorem run_term (v : Value) (s : Store) :
    run (term v) s = run (toDepth (s.cells.size + 1) v) s := by
  simp only [term, run_bind, run_store, ok_bind]

/-! ## Depth -/

/-- **Depth.** Let sets of addresses below a bound grow from nothing, each the
result of the same monotone step. What is ever in one of them is in the set after
as many steps as the bound says. -/
theorem mem_of_bounded_steps {P : Nat → Address → Prop} {bound : Nat}
    (hzero : ∀ a, ¬ P 0 a) (hlt : ∀ d a, P d a → a < bound)
    (hmono : ∀ d e, (∀ a, P d a → P e a) → ∀ a, P (d + 1) a → P (e + 1) a)
    {d : Nat} {a : Address} (h : P d a) : P bound a := by
  classical
  have hsucc : ∀ d a, P d a → P (d + 1) a := by
    intro d
    induction d with
    | zero => exact fun a ha => absurd ha (hzero a)
    | succ d ih => exact hmono d (d + 1) ih
  have hle : ∀ {d e}, d ≤ e → ∀ a, P d a → P e a := by
    intro d e hde
    induction hde with
    | refl => exact fun _ ha => ha
    | step _ ih => exact fun a ha => hsucc _ a (ih a ha)
  -- A set that one step does not change is not changed by any later one.
  have hstable : ∀ j, (∀ a, P (j + 1) a → P j a) → ∀ k a, P (j + k) a → P j a := by
    intro j hj k
    induction k with
    | zero => exact fun _ ha => ha
    | succ k ih => exact fun a ha => hj a (hmono (j + k) j ih a ha)
  -- Until a step changes nothing, each adds an address, and there are few of them.
  let members (d : Nat) : Finset Address := (Finset.range bound).filter (P d)
  have hmem : ∀ d a, a ∈ members d ↔ P d a := by
    intro d a
    simp only [members, Finset.mem_filter, Finset.mem_range]
    exact ⟨fun ha => ha.2, fun ha => ⟨hlt d a ha, ha⟩⟩
  have hgrow : ∀ k, (∃ j, j < k ∧ ∀ a, P (j + 1) a → P j a) ∨ k ≤ (members k).card := by
    intro k
    induction k with
    | zero => exact .inr (Nat.zero_le _)
    | succ k ih =>
      rcases ih with ⟨j, hj, hstop⟩ | hcard
      · exact .inl ⟨j, Nat.lt_succ_of_lt hj, hstop⟩
      · by_cases hstop : ∀ a, P (k + 1) a → P k a
        · exact .inl ⟨k, Nat.lt_succ_self k, hstop⟩
        · push Not at hstop
          obtain ⟨b, hb, hnb⟩ := hstop
          refine .inr (Nat.lt_of_le_of_lt hcard (Finset.card_lt_card ?_))
          rw [Finset.ssubset_iff_of_subset fun a ha => (hmem _ a).mpr (hsucc k a ((hmem k a).mp ha))]
          exact ⟨b, (hmem _ b).mpr hb, fun hb' => hnb ((hmem k b).mp hb')⟩
  rcases hgrow (bound + 1) with ⟨j, hj, hstop⟩ | hcard
  · have hja : P j a := by
      rcases Nat.le_total d j with hdj | hjd
      · exact hle hdj a h
      · obtain ⟨k, rfl⟩ := Nat.exists_eq_add_of_le hjd
        exact hstable j hstop k a h
    exact hle (Nat.lt_succ_iff.mp hj) a hja
  · have hfew : (members (bound + 1)).card ≤ bound := by
      simpa using Finset.card_filter_le (Finset.range bound) (P (bound + 1))
    omega

end ProgramTree.Target.Convert

/-! ## Nodes at a glance -/

namespace ProgramTree.Look

/-- The fields of a node hold these values. -/
def HasFields (s : Store) (v : Value) : List (Field × Value) → Prop
  | [] => True
  | [e] => run (field v e.1) s = .ok e.2
  | e :: es => run (field v e.1) s = .ok e.2 ∧ HasFields s v es

instance decidableHasFields (s : Store) (v : Value) :
    (es : List (Field × Value)) → Decidable (HasFields s v es)
  | [] => .isTrue trivial
  | [_] => inferInstanceAs (Decidable (_ = _))
  | _ :: e :: es =>
    have := decidableHasFields s v (e :: es)
    inferInstanceAs (Decidable (_ ∧ HasFields s v (e :: es)))

/-- A node of this form, with these values in its fields. -/
abbrev NodeWith (s : Store) (v : Value) (g : Form) (es : List (Field × Value)) : Prop :=
  s.formOf? v = some g ∧ HasFields s v es

end ProgramTree.Look
