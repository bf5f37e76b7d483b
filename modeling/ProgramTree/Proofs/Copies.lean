/-
Copies are as good as what they copy.

A copy is made of new cells at the end of the store, each with its addresses replaced by
those of the copies. The renaming keeps forms and sends different cells to different
cells (`copyAddress_inj`), so what holds of a value holds of its copy
(`Hint.meets_redirect`), and a store stays sound if only finished nodes are copied. Which
cells are copied depends on what can be reached from the value; a set of cells that
nothing leads out of contains all of them (`mem_copied`).
-/
import ProgramTree.Proofs.Keeping

namespace ProgramTree

open Look

/-! ## Where the copies are -/

namespace Store

variable {s : Store} {olds : List Address} {a b : Address}

/-- What can be reached from some addresses stays in a set that nothing leads out of. The
induction is on the steps of the search. -/
theorem mem_reach {P : Address → Prop}
    (hP : ∀ b c, P b → s.cell? b = some c → ∀ x ∈ c.targets, P x) (fuel : Nat)
    {waiting seen : List Address} (hwaiting : ∀ b ∈ waiting, P b) (hseen : ∀ b ∈ seen, P b) :
    ∀ b ∈ s.reach fuel waiting seen, P b := by
  induction fuel generalizing waiting seen with
  | zero => exact hseen
  | succ fuel ih =>
    cases waiting with
    | nil => exact hseen
    | cons a waiting =>
      have ha : P a := hwaiting a (List.mem_cons_self ..)
      have hrest : ∀ b ∈ waiting, P b := fun b hb => hwaiting b (List.mem_cons_of_mem _ hb)
      rw [reach]
      split
      · exact ih hrest hseen
      · refine ih (fun b hb => ?_) fun b hb => ?_
        · rcases List.mem_append.mp hb with hb | hb
          · cases hc : s.cell? a with
            | none => simp [hc] at hb
            | some c =>
              rw [hc] at hb
              exact hP a c ha hc b hb
          · exact hrest b hb
        · rcases List.mem_append.mp hb with hb | hb
          · exact hseen b hb
          · rw [List.mem_singleton.mp hb]
            exact ha

/-- What is copied with a cell is in each set with the cell that nothing leads out of. -/
theorem mem_copied {P : Address → Prop}
    (hP : ∀ b c, P b → s.cell? b = some c → ∀ x ∈ c.targets, P x) (ha : P a) :
    ∀ b ∈ s.copied a, P b := fun b hb =>
  mem_reach hP _ (by simpa using ha) (by simp) b (List.mem_filter.mp hb).1

/-- The cells after copying: those before, then the copies. -/
theorem cells_pushCopies (s : Store) (olds : List Address) :
    (s.pushCopies olds).cells = s.cells ++ (olds.map fun a =>
      ((s.cell? a).getD (.list [])).redirect (copyAddress s.nextAddress olds)).toArray := by
  have hfold : ∀ (g : Address → Cell) (xs : List Address) (t : Store),
      (xs.foldl (fun t a => t.push (g a)) t).cells = t.cells ++ (xs.map g).toArray := by
    intro g xs
    induction xs with
    | nil => simp
    | cons x xs ih =>
      intro t
      rw [List.foldl_cons, ih, push, List.map_cons]
      simp
  exact hfold _ olds s

/-- Copying takes nothing away. -/
theorem extends_pushCopies (s : Store) (olds : List Address) :
    s.Extends (s.pushCopies olds) := by
  have hfold : ∀ (g : Address → Cell) (xs : List Address) (t : Store),
      t.Extends (xs.foldl (fun t a => t.push (g a)) t) := by
    intro g xs
    induction xs with
    | nil => exact fun t => .refl t
    | cons x xs ih => exact fun t => (extends_push t (g x)).trans (ih _)
  exact hfold _ olds s

theorem cell?_pushCopies_of_lt (hb : b < s.cells.size) :
    (s.pushCopies olds).cell? b = s.cell? b := by
  rw [cell?, cells_pushCopies, Array.getElem?_append_left hb, cell?]

/-- A cell after copying is one from before, or the copy of one. -/
theorem cell?_pushCopies_inv {c : Cell} (holds : ∀ a ∈ olds, a < s.cells.size)
    (h : (s.pushCopies olds).cell? b = some c) :
    (b < s.cells.size ∧ s.cell? b = some c) ∨ s.cells.size ≤ b ∧ ∃ a ∈ olds, ∃ d,
      s.cell? a = some d ∧ c = d.redirect (copyAddress s.nextAddress olds) := by
  by_cases hb : b < s.cells.size
  · rw [cell?_pushCopies_of_lt hb] at h
    exact .inl ⟨hb, h⟩
  · refine .inr ⟨Nat.le_of_not_lt hb, ?_⟩
    rw [cell?, cells_pushCopies, Array.getElem?_append_right (Nat.le_of_not_lt hb)] at h
    simp only [List.getElem?_toArray, List.getElem?_map, Option.map_eq_some_iff] at h
    obtain ⟨a, ha, rfl⟩ := h
    have hmem := List.mem_of_getElem? ha
    obtain ⟨d, hd⟩ : ∃ d, s.cell? a = some d :=
      ⟨_, Array.getElem?_eq_getElem (holds a hmem)⟩
    exact ⟨a, hmem, d, hd, by rw [hd]; rfl⟩

/-- The copy of a cell, at its address. -/
theorem cell?_copyAddress {c : Cell} (ha : a ∈ olds) (hc : s.cell? a = some c) :
    (s.pushCopies olds).cell? (copyAddress s.nextAddress olds a) =
      some (c.redirect (copyAddress s.nextAddress olds)) := by
  have hlt := List.idxOf_lt_length_of_mem ha
  have haddress : copyAddress s.nextAddress olds a = s.cells.size + olds.idxOf a := by
    rw [copyAddress, if_pos (List.contains_iff_mem.mpr ha), nextAddress]
  rw [haddress, cell?, cells_pushCopies, Array.getElem?_append_right (Nat.le_add_right _ _)]
  simp only [Nat.add_sub_cancel_left, List.getElem?_toArray, List.getElem?_map]
  rw [List.getElem?_eq_getElem hlt, List.getElem_idxOf, Option.map_some, hc]
  rfl

theorem copyAddress_of_not_mem {first : Address} (ha : a ∉ olds) :
    copyAddress first olds a = a := by
  rw [copyAddress, if_neg (mt List.contains_iff_mem.mp ha)]

/-- Copies are after all that was there. -/
theorem le_copyAddress (first : Address) (ha : a ∈ olds) : first ≤ copyAddress first olds a := by
  rw [copyAddress, if_pos (List.contains_iff_mem.mpr ha)]
  exact Nat.le_add_right _ _

/-- Different cells have different copies. -/
theorem copyAddress_inj {first : Address} (ha : a < first) (hb : b < first)
    (h : copyAddress first olds a = copyAddress first olds b) : a = b := by
  by_cases hao : a ∈ olds
  · by_cases hbo : b ∈ olds
    · rw [copyAddress, copyAddress, if_pos (List.contains_iff_mem.mpr hao),
        if_pos (List.contains_iff_mem.mpr hbo)] at h
      exact List.idxOf_inj hao |>.mp (Nat.add_left_cancel h)
    · rw [copyAddress_of_not_mem hbo] at h
      have hle := le_copyAddress first hao
      exact absurd (h ▸ hle) (Nat.not_le.mpr hb)
  · rw [copyAddress_of_not_mem hao] at h
    by_cases hbo : b ∈ olds
    · have hle := le_copyAddress first hbo
      exact absurd (h ▸ hle) (Nat.not_le.mpr ha)
    · rw [copyAddress_of_not_mem hbo] at h
      exact h

theorem size_pushCopies (s : Store) (olds : List Address) :
    (s.pushCopies olds).cells.size = s.cells.size + olds.length := by
  rw [cells_pushCopies]
  simp

theorem copyAddress_lt (ha : a < s.cells.size) :
    copyAddress s.nextAddress olds a < (s.pushCopies olds).cells.size := by
  rw [size_pushCopies, copyAddress]
  split
  · next hmem =>
    have hlt := List.idxOf_lt_length_of_mem (List.contains_iff_mem.mp hmem)
    exact Nat.add_lt_add_left hlt _
  · exact Nat.lt_add_right _ ha

end Store

/-! ## What holds of a copy -/

namespace Node

/-- The fields of a copy. -/
theorem get?_redirect (n : Node) (f : Address → Address) (g : Field) :
    ({ n with fields := n.fields.map fun e => (e.1, e.2.redirect f) } : Node).get? g =
      (n.get? g).map (Value.redirect f) := by
  simp only [get?]
  induction n.fields with
  | nil => rfl
  | cons e rest ih =>
    rw [List.map_cons, List.lookup_cons, List.lookup_cons]
    cases g == e.1 with
    | true => rfl
    | false => exact ih

end Node

namespace Store

variable {s : Store} {olds : List Address} {v : Value}

/-- What stands for a value among the copies. -/
def moved (s : Store) (olds : List Address) (v : Value) : Value :=
  v.redirect (copyAddress s.nextAddress olds)

/-- A value that is not copied stands for itself, and else its cell is copied. -/
theorem moved_cases (s : Store) (olds : List Address) (v : Value) :
    s.moved olds v = v ∨ ∀ c, s.cellOf? v = some c →
      (s.pushCopies olds).cellOf? (s.moved olds v) =
        some (c.redirect (copyAddress s.nextAddress olds)) := by
  cases v with
  | ref a =>
    by_cases ha : a ∈ olds
    · exact .inr fun c hc => cell?_copyAddress ha hc
    · refine .inl ?_
      rw [moved, Value.redirect, copyAddress_of_not_mem ha]
  | _ => exact .inl rfl

/-- Copies have the forms of what they copy. -/
theorem formOf?_moved {f : Form} (h : s.formOf? v = some f) :
    (s.pushCopies olds).formOf? (s.moved olds v) = some f := by
  rcases moved_cases s olds v with hsame | hcopy
  · rw [hsame]
    exact (extends_pushCopies s olds).forms v f h
  · obtain ⟨n, hn, hf⟩ := formOf?_eq_some.mp h
    exact formOf?_eq_some.mpr ⟨_, hcopy _ hn, hf⟩

theorem isForm_moved {f : Form} (h : s.isForm v f = true) :
    (s.pushCopies olds).isForm (s.moved olds v) f = true := by
  obtain ⟨g, hg, hgf⟩ := isForm_iff.mp h
  exact isForm_iff.mpr ⟨g, formOf?_moved hg, hgf⟩

theorem isOutlined_moved (h : s.isOutlined v = true) :
    (s.pushCopies olds).isOutlined (s.moved olds v) = true := by
  simp only [isOutlined, Bool.or_eq_true] at h ⊢
  exact h.imp isForm_moved isForm_moved

theorem holds_moved (h : s.holds v = true) :
    (s.pushCopies olds).holds (s.moved olds v) = true := by
  cases v with
  | ref a => exact decide_eq_true (copyAddress_lt (of_decide_eq_true h))
  | _ => rfl

/-- What was there is no copy, unless it stands for itself. -/
theorem eq_of_eq_moved {w : Value} (hw : s.holds w = true) (h : w = s.moved olds v) : w = v := by
  cases v with
  | ref a =>
    by_cases ha : a ∈ olds
    · rw [h, moved, Value.redirect] at hw
      exact absurd (of_decide_eq_true hw) (Nat.not_lt.mpr (le_copyAddress _ ha))
    · rw [h, moved, Value.redirect, copyAddress_of_not_mem ha]
  | _ => exact h

/-- Different values have different copies. -/
theorem moved_inj {w : Value} (hv : s.holds v = true) (hw : s.holds w = true)
    (h : s.moved olds v = s.moved olds w) : v = w := by
  cases v with
  | ref a =>
    cases w with
    | ref b =>
      rw [copyAddress_inj (of_decide_eq_true hv) (of_decide_eq_true hw) (Value.ref.inj h)]
    | _ => cases h
  | _ =>
    cases w with
    | ref b => cases h
    | _ => exact h

theorem targets_redirect (c : Cell) (f : Address → Address) :
    (c.redirect f).targets = c.targets.map f := by
  have haddress : ∀ v : Value, Cell.targets.address? (v.redirect f) =
      (Cell.targets.address? v).map f := by
    intro v
    cases v <;> rfl
  cases c with
  | node n =>
    simp only [Cell.redirect, Cell.targets, List.filterMap_map, List.map_filterMap]
    exact List.filterMap_congr fun e _ => haddress e.2
  | list xs | tuple xs | set xs =>
    simp only [Cell.redirect, Cell.targets, List.filterMap_map, List.map_filterMap]
    exact List.filterMap_congr fun x _ => haddress x
  | dict es =>
    simp only [Cell.redirect, Cell.targets, List.flatMap_map, List.map_flatMap]
    congr 1
    funext e
    rw [List.map_filterMap]
    simp only [List.filterMap_cons, haddress, List.filterMap_nil]

/-- The items of a copy are the copies of the items. -/
theorem sequence?_redirect {c : Cell} {xs : List Value} {f : Address → Address}
    (h : sequence? c = some xs) : sequence? (c.redirect f) = some (xs.map (Value.redirect f)) := by
  cases c <;> cases h <;> rfl

theorem isListOfNodes_moved (h : s.isListOfNodes v = true) :
    (s.pushCopies olds).isListOfNodes (s.moved olds v) = true := by
  rcases moved_cases s olds v with hsame | hcopy
  · rw [hsame]
    exact (extends_pushCopies s olds).isListOfNodes h
  · obtain ⟨l, xs, rfl, hxs, h⟩ := isListOfNodes_iff.mp h
    refine isListOfNodes_iff.mpr ⟨_, _, rfl, hcopy _ hxs, fun y hy => ?_⟩
    obtain ⟨x, hx, rfl⟩ := List.mem_map.mp hy
    exact isForm_moved (h x hx)

/-- The items of a copy pass a test, if what they copy passes it. -/
theorem allItems_moved {p q : Value → Bool}
    (hcopy : ∀ c, s.cellOf? v = some c → (s.pushCopies olds).cellOf? (s.moved olds v) =
      some (c.redirect (copyAddress s.nextAddress olds)))
    (hpq : ∀ x, p x = true → q (s.moved olds x) = true) (h : s.allItems p v = true) :
    (s.pushCopies olds).allItems q (s.moved olds v) = true := by
  obtain ⟨c, xs, hc, hxs, h⟩ := allItems_iff.mp h
  refine allItems_iff.mpr ⟨_, _, hcopy c hc, sequence?_redirect hxs, fun y hy => ?_⟩
  obtain ⟨x, hx, rfl⟩ := List.mem_map.mp hy
  exact hpq x (h x hx)

end Store

namespace Hint

variable {s : Store} {olds : List Address} {v : Value} {h : Hint}

theorem redirect_number {f : Address → Address} (hv : isNumber v = true) : v.redirect f = v := by
  cases v with
  | ref a => cases hv
  | _ => rfl

/-- What a value is its copy is. -/
theorem meets_moved (hs : Shared.classNodes < s.cells.size) (hv : h.loose.meets s v = true) :
    h.loose.meets (s.pushCopies olds) (s.moved olds v) = true := by
  rcases Store.moved_cases s olds v with hsame | hcopy
  · rw [hsame]
    exact meets_extends (Store.extends_pushCopies s olds) hv
  induction h with
  | either g k ihg ihk =>
    simp only [loose, meets, Bool.or_eq_true] at hv ⊢
    exact hv.imp ihg ihk
  | node f => exact Store.isForm_moved hv
  | exactly f => exact decide_eq_true (Store.formOf?_moved (of_decide_eq_true hv))
  | items f =>
    rw [loose] at hv ⊢
    split at hv
    · next hf =>
      rw [if_pos hf]
      simp only [meets, Bool.or_eq_true] at hv ⊢
      refine hv.imp Store.isForm_moved (Store.allItems_moved hcopy fun x hx => ?_)
      simp only [Bool.and_eq_true] at hx ⊢
      exact ⟨Store.isForm_moved hx.1, Store.isOutlined_moved hx.2⟩
    · next hf =>
      rw [if_neg hf]
      simp only [meets, Bool.or_eq_true] at hv ⊢
      exact hv.imp Store.isForm_moved
        (Store.allItems_moved hcopy fun x hx => Store.isOutlined_moved hx)
  | series =>
    simp only [loose, meets, Bool.or_eq_true] at hv ⊢
    exact hv.imp Store.isForm_moved
      (Store.allItems_moved hcopy fun x hx => Store.isOutlined_moved hx)
  | members f | words | anything => exact Store.holds_moved hv
  | entries f =>
    simp only [loose, meets] at hv ⊢
    split at hv
    · next es hes =>
      rw [hcopy _ hes]
      simp only [Cell.redirect, List.all_map, List.all_eq_true, Bool.and_eq_true,
        Function.comp_apply] at hv ⊢
      exact fun e he => ⟨Store.isForm_moved (hv e he).1, Store.isForm_moved (hv e he).2⟩
    · exact absurd hv (by simp)
  | nodes => exact Store.isListOfNodes_moved hv
  | growing =>
    obtain ⟨b, n, l, xs, rfl, hn, hisA, hl, hne, hxs, hnodes⟩ := Build.growing_inv hv
    have hlist : (s.pushCopies olds).listOf? (s.moved olds (.ref b)) =
        some (s.moved olds (.ref l)) := by
      refine Store.listOf?_eq_some.mpr ⟨_, hcopy _ (Store.node?_eq_some.mp hn), ?_⟩
      rw [Node.get?_redirect, hl]
      rfl
    have hnodes' := Store.isListOfNodes_iff.mpr ⟨l, xs, rfl, hxs, hnodes⟩
    simp only [loose, meets, Bool.and_eq_true, hlist, Option.any_some, decide_eq_true_eq]
    refine ⟨Store.isForm_moved (Store.isForm_ref.mpr ⟨n, hn, hisA⟩), ?_,
      Store.isListOfNodes_moved hnodes'⟩
    -- The copy of another list is not the shared one.
    intro heq
    have haddress := Value.ref.inj heq
    by_cases hmem : l ∈ olds
    · exact absurd (haddress ▸ Store.le_copyAddress s.nextAddress hmem) (Nat.not_le.mpr hs)
    · rw [Store.copyAddress_of_not_mem hmem] at haddress
      exact hne haddress
  | pair =>
    simp only [loose, meets] at hv ⊢
    split at hv
    · next x y hxy =>
      rw [hcopy _ hxy]
      simp only [Bool.and_eq_true] at hv
      simp only [Cell.redirect, List.map_cons, List.map_nil, redirect_number hv.1,
        redirect_number hv.2, hv.1, hv.2, Bool.and_self]
    · exact absurd hv (by simp)
  | _ =>
    cases v with
    | ref a => exact absurd hv (by simp [loose, meets, isText, isNumber])
    | _ => exact hv

end Hint

/-! ## Stores with copies -/

namespace Sound

variable {D : Drafts} {s : Store} {olds : List Address}

/-- What holds after copying finished nodes. -/
theorem pushCopies (hs : Sound D s) (hold : ∀ a ∈ olds, a < s.cells.size)
    (hD : ∀ a ∈ olds, D a = none) : Sound D (s.pushCopies olds) := by
  have hext := Store.extends_pushCopies s olds
  have hclass : Shared.classNodes < s.cells.size := lt_of_lt_of_le (by decide) hs.shared.size
  -- A node is one from before, or the copy of one.
  have hnodes : ∀ {b k}, (s.pushCopies olds).node? b = some k →
      (b < s.cells.size ∧ s.node? b = some k) ∨ s.cells.size ≤ b ∧ ∃ a ∈ olds, ∃ m,
        s.node? a = some m ∧ k.form = m.form ∧
        ∀ g, k.get? g = (m.get? g).map (s.moved olds) := by
    intro b k hk
    rcases Store.cell?_pushCopies_inv hold (Store.node?_eq_some.mp hk) with hb | ⟨hb, a, ha, d, hd, hkd⟩
    · exact .inl ⟨hb.1, Store.node?_eq_some.mpr hb.2⟩
    · refine .inr ⟨hb, a, ha, ?_⟩
      cases d with
      | node m =>
        cases hkd
        exact ⟨m, Store.node?_eq_some.mpr hd, rfl, Node.get?_redirect m _⟩
      | list xs => cases hkd
      | tuple xs => cases hkd
      | set xs => cases hkd
      | dict es => cases hkd
  refine ⟨fun b hb => ?_, fun b k hk e he => ?_, fun b c hc x hx => ?_, fun b k w hk hw => ?_,
    fun b b' k k' w hk hk' hw hw' => ?_, hs.shared.trans hext, fun b hb => ⟨(hs.body b hb).1, ?_⟩,
    fun b k f hk hf hnone => ?_⟩
  · exact hs.fresh b (hext.size.trans hb)
  · rcases hnodes hk with ⟨-, hk⟩ | ⟨hb, a, ha, m, hm, hform, hget⟩
    · obtain ⟨w, hw, hmeets⟩ := hs.typed b k hk e he
      exact ⟨w, hw, Hint.meets_extends hext hmeets⟩
    · rw [Drafts.promised, hs.fresh b hb, hform] at he
      rw [← hD a ha] at he
      obtain ⟨w, hw, hmeets⟩ := hs.typed a m hm e he
      refine ⟨s.moved olds w, ?_, Hint.meets_moved hclass hmeets⟩
      rw [hget, hw, Option.map_some]
  · rcases Store.cell?_pushCopies_inv hold hc with ⟨-, hc⟩ | ⟨-, a, ha, d, hd, rfl⟩
    · exact lt_of_lt_of_le (hs.closed b c hc x hx) hext.size
    · rw [Store.targets_redirect] at hx
      obtain ⟨y, hy, rfl⟩ := List.mem_map.mp hx
      exact Store.copyAddress_lt (hs.closed a d hd y hy)
  · have hsame : ∀ {v xs}, s.cellOf? v = some (.list xs) →
        (s.pushCopies olds).cellOf? v = some (.list xs) := by
      intro v xs hv
      cases v with
      | ref z =>
        exact (Store.cell?_pushCopies_of_lt (Array.getElem?_eq_some_iff.mp hv).1).trans hv
      | _ => cases hv
    rcases hnodes hk with ⟨-, hk⟩ | ⟨-, a, ha, m, hm, -, hget⟩
    · obtain ⟨xs, hxs, hall⟩ := hs.signs b k w hk hw
      exact ⟨xs, hsame hxs, hall⟩
    · rw [hget, Option.map_eq_some_iff] at hw
      obtain ⟨v, hv, rfl⟩ := hw
      obtain ⟨xs, hxs, hall⟩ := hs.signs a m v hm hv
      rcases Store.moved_cases s olds v with hstay | hcopy
      · rw [hstay]
        exact ⟨xs, hsame hxs, hall⟩
      · refine ⟨_, hcopy _ hxs, ?_⟩
        rw [List.all_map, List.all_eq_true]
        intro x hx
        have htext := List.all_eq_true.mp hall x hx
        cases x with
        | text t => rfl
        | _ => cases htext
  · rcases hnodes hk with ⟨-, hk⟩ | ⟨-, a, ha, m, hm, -, hget⟩
    · have hheld := hs.holds_get? hk hw
      rcases hnodes hk' with ⟨-, hk'⟩ | ⟨-, a', ha', m', hm', -, hget'⟩
      · exact hs.apart b b' k k' w hk hk' hw hw'
      · rw [hget', Option.map_eq_some_iff] at hw'
        obtain ⟨v, hv, hvw⟩ := hw'
        obtain rfl := Store.eq_of_eq_moved hheld hvw.symm
        exact hs.apart b a' k m' w hk hm' hw hv
    · rw [hget, Option.map_eq_some_iff] at hw
      obtain ⟨v, hv, rfl⟩ := hw
      rcases hnodes hk' with ⟨-, hk'⟩ | ⟨-, a', ha', m', hm', -, hget'⟩
      · have hheld := hs.holds_get? hk' hw'
        have heq : s.moved olds v = v := Store.eq_of_eq_moved hheld rfl
        rw [heq] at hw'
        exact hs.apart a b' m k' v hm hk' hv hw'
      · rw [hget', Option.map_eq_some_iff] at hw'
        obtain ⟨v', hv', heq⟩ := hw'
        obtain rfl := Store.moved_inj (hs.holds_get? hm' hv') (hs.holds_get? hm hv) heq
        exact hs.apart a a' m m' v' hm hm' hv hv'
  · intro c hc
    have hlt : b < s.cells.size :=
      Nat.lt_of_not_le fun hle => absurd hb (hs.not_mem_bodyCells hle)
    rw [Store.cell?_pushCopies_of_lt hlt] at hc
    exact (hs.body b hb).2 c hc
  · rcases hnodes hk with ⟨-, hk⟩ | ⟨hb, a, ha, m, hm, hform, hget⟩
    · exact hs.lacking b k f hk hf hnone
    · rw [hs.fresh b hb, hform, ← hD a ha] at hnone
      rw [hform] at hf
      rw [hget, hs.lacking a m f hm hf hnone, Option.map_none]

end Sound

namespace Build

variable {D : Drafts} {s t : Store} {v w : Value}

/-- A copy of what is finished is as good as what it copies. The set `P` has the cell that
is copied, and nothing leads out of it. -/
theorem copy_sound {P : Address → Prop} (hs : Sound D s)
    (hP : ∀ b c, P b → s.cell? b = some c → ∀ x ∈ c.targets, P x)
    (hlt : ∀ b, P b → b < s.cells.size ∧ D b = none) (hv : ∀ b, v = .ref b → P b)
    (h : copy v s = (.ok w, t)) :
    Sound D t ∧ s.Extends t ∧ (∀ b, b < s.cells.size → t.cell? b = s.cell? b) ∧
      (w = v ∨ ∃ b, w = .ref b ∧ s.cells.size ≤ b) ∧
      ∀ k : Hint, k.loose.meets s v = true → k.loose.meets t w = true := by
  cases v with
  | ref a =>
    have hmem : ∀ b ∈ s.copied a, P b := Store.mem_copied hP (hv a rfl)
    obtain ⟨hw, ht⟩ : Value.ref (Store.copyAddress s.nextAddress (s.copied a) a) = w ∧
        s.pushCopies (s.copied a) = t := by
      have heq := Prod.mk.inj h
      exact ⟨Except.ok.inj heq.1, heq.2⟩
    rw [← hw, ← ht]
    refine ⟨hs.pushCopies (fun b hb => (hlt b (hmem b hb)).1) fun b hb => (hlt b (hmem b hb)).2,
      Store.extends_pushCopies s _, fun b hb => Store.cell?_pushCopies_of_lt hb, ?_,
      fun k hk => Hint.meets_moved (lt_of_lt_of_le (by decide) hs.shared.size) hk⟩
    by_cases ha : a ∈ s.copied a
    · exact .inr ⟨_, rfl, Store.le_copyAddress _ ha⟩
    · rw [Store.copyAddress_of_not_mem ha]
      exact .inl rfl
  | _ =>
    cases h
    exact ⟨hs, .refl s, fun _ _ => rfl, .inl rfl, fun _ hk => hk⟩

end Build

end ProgramTree
