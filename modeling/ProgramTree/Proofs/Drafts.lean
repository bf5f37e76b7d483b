/-
What holds of a store while constructors are at work.

A constructor puts a node without fields into the store, makes others on the way, and
fills its node field by field. In between the node is a draft: a reader may rely on the
fields that it got so far and on nothing else. `Sound D s` says what holds of a store with
such drafts: each finished node holds what its form promises, each draft what `D` says of
it, no value refers to a cell that is not there, and the signs of a chain of comparisons
stand in a list that belongs to no container, so nothing is ever added to them.

All that constructors do to what was there is that lists of containers grow (`Extends`).
Hints that look at forms and at the items of lists stay true then (`Extends.meets`), which
is why nothing that is known of an older node has to be shown again.
-/
import ProgramTree.Proofs.Hints

namespace ProgramTree

open Look

namespace Form

/-- What refines a form refines what that form refines. -/
theorem isA_trans {f g k : Form} (hfg : f.isA g = true) (hgk : g.isA k = true) :
    f.isA k = true := by
  have hsub : ∀ f : Form, ∀ g ∈ f.ancestors, ∀ k ∈ g.ancestors, k ∈ f.ancestors := by
    intro f
    cases f <;> decide
  simp only [isA, List.contains_iff_mem] at hfg hgk ⊢
  exact hsub f g hfg k hgk

end Form

/-! ## Stores that grow -/

namespace Store

variable {s t u : Store} {a b : Address} {n m : Node} {v : Value}

theorem isForm_iff {f : Form} :
    s.isForm v f = true ↔ ∃ g, s.formOf? v = some g ∧ g.isA f = true := by
  rw [isForm]
  cases s.formOf? v with
  | none => simp
  | some g => simp

theorem isListOfNodes_iff : s.isListOfNodes v = true ↔
    ∃ l xs, v = .ref l ∧ s.cell? l = some (.list xs) ∧ ∀ x ∈ xs, s.isForm x .node = true := by
  refine ⟨fun h => ?_, fun ⟨l, xs, hv, hxs, h⟩ => ?_⟩
  · simp only [isListOfNodes] at h
    split at h
    · next xs hxs =>
      cases v with
      | ref l => exact ⟨l, xs, rfl, hxs, List.all_eq_true.mp h⟩
      | _ => cases hxs
    · cases h
  · simpa [isListOfNodes, cellOf?, hv, hxs] using h

theorem allItems_iff {test : Value → Bool} : s.allItems test v = true ↔
    ∃ c xs, s.cellOf? v = some c ∧ sequence? c = some xs ∧ ∀ x ∈ xs, test x = true := by
  simp only [allItems, Option.any_eq_true, Option.bind_eq_some_iff, List.all_eq_true]
  exact ⟨fun ⟨xs, ⟨c, hc, hxs⟩, h⟩ => ⟨c, xs, hc, hxs, h⟩,
    fun ⟨c, xs, hc, hxs, h⟩ => ⟨xs, ⟨c, hc, hxs⟩, h⟩⟩

theorem isForm_ref {f : Form} : s.isForm (.ref a) f = true ↔
    ∃ n, s.node? a = some n ∧ n.form.isA f = true := by
  rw [isForm, formOf?]
  simp only [nodeOf?]
  cases s.node? a with
  | none => simp
  | some n => simp

/-- A node of a form is a reference to a cell. -/
theorem holds_of_isForm {f : Form} (h : s.isForm v f = true) : s.holds v = true := by
  obtain ⟨g, hg, -⟩ := isForm_iff.mp h
  obtain ⟨a, rfl, hlt⟩ := ref_of_formOf? hg
  exact decide_eq_true hlt

theorem holds_of_cellOf? {c : Cell} (h : s.cellOf? v = some c) : s.holds v = true := by
  cases v with
  | ref a => exact decide_eq_true (Array.getElem?_eq_some_iff.mp h).1
  | _ => rfl

/-- A store with all that another one has: nodes have the forms that they had, and lists
got nodes at their end. -/
structure Extends (s t : Store) : Prop where
  size : s.cells.size ≤ t.cells.size
  forms : ∀ v f, s.formOf? v = some f → t.formOf? v = some f
  lists : ∀ v xs, s.cellOf? v = some (.list xs) →
    ∃ ys, t.cellOf? v = some (.list (xs ++ ys)) ∧ ∀ y ∈ ys, t.isForm y .node = true
  tuples : ∀ v xs, s.cellOf? v = some (.tuple xs) → t.cellOf? v = some (.tuple xs)
  sets : ∀ v xs, s.cellOf? v = some (.set xs) → t.cellOf? v = some (.set xs)
  dicts : ∀ v es, s.cellOf? v = some (.dict es) → t.cellOf? v = some (.dict es)
  listOf? : ∀ v w, s.listOf? v = some w → t.listOf? v = some w

namespace Extends

theorem refl (s : Store) : s.Extends s :=
  ⟨le_refl _, fun _ _ h => h, fun _ xs h => ⟨[], by simpa using h, by simp⟩,
    fun _ _ h => h, fun _ _ h => h, fun _ _ h => h, fun _ _ h => h⟩

theorem isForm (h : s.Extends t) {f : Form} (hv : s.isForm v f = true) :
    t.isForm v f = true := by
  obtain ⟨g, hg, hgf⟩ := isForm_iff.mp hv
  exact isForm_iff.mpr ⟨g, h.forms v g hg, hgf⟩

theorem trans (h : s.Extends t) (h' : t.Extends u) : s.Extends u where
  size := h.size.trans h'.size
  forms v f hv := h'.forms v f (h.forms v f hv)
  lists v xs hv := by
    obtain ⟨ys, hys, hnodes⟩ := h.lists v xs hv
    obtain ⟨zs, hzs, hnodes'⟩ := h'.lists v _ hys
    refine ⟨ys ++ zs, by rw [hzs, List.append_assoc], fun z hz => ?_⟩
    rcases List.mem_append.mp hz with hz | hz
    · exact h'.isForm (hnodes z hz)
    · exact hnodes' z hz
  tuples v xs hv := h'.tuples v xs (h.tuples v xs hv)
  sets v xs hv := h'.sets v xs (h.sets v xs hv)
  dicts v es hv := h'.dicts v es (h.dicts v es hv)
  listOf? v w hv := h'.listOf? v w (h.listOf? v w hv)

theorem isOutlined (h : s.Extends t) (hv : s.isOutlined v = true) : t.isOutlined v = true := by
  simp only [Store.isOutlined, Bool.or_eq_true] at hv ⊢
  exact hv.imp h.isForm h.isForm

theorem isListOfNodes (h : s.Extends t) (hv : s.isListOfNodes v = true) :
    t.isListOfNodes v = true := by
  obtain ⟨l, xs, rfl, hxs, hv⟩ := isListOfNodes_iff.mp hv
  obtain ⟨ys, hys, hnodes⟩ := h.lists (.ref l) xs hxs
  refine isListOfNodes_iff.mpr ⟨l, _, rfl, hys, fun x hx => ?_⟩
  exact (List.mem_append.mp hx).elim (fun hx => h.isForm (hv x hx)) (hnodes x)

/-- Items pass a test that nodes pass, if they passed it before. -/
theorem allItems (h : s.Extends t) {p : Store → Value → Bool}
    (hp : ∀ x, p s x = true → p t x = true) (hnode : ∀ x, t.isForm x .node = true → p t x = true)
    (hv : s.allItems (p s) v = true) : t.allItems (p t) v = true := by
  obtain ⟨c, xs, hc, hcs, hv⟩ := allItems_iff.mp hv
  have hxs : ∀ x ∈ xs, p t x = true := fun x hx => hp x (hv x hx)
  refine allItems_iff.mpr ?_
  cases c with
  | list zs =>
    cases hcs
    obtain ⟨ys, hys, hnodes⟩ := h.lists v xs hc
    refine ⟨_, _, hys, rfl, fun x hx => ?_⟩
    exact (List.mem_append.mp hx).elim (hxs x) fun hx => hnode x (hnodes x hx)
  | tuple zs =>
    cases hcs
    exact ⟨_, xs, h.tuples v xs hc, rfl, hxs⟩
  | set zs =>
    cases hcs
    exact ⟨_, xs, h.sets v xs hc, rfl, hxs⟩
  | node n => cases hcs
  | dict es => cases hcs

theorem holds (h : s.Extends t) (hv : s.holds v = true) : t.holds v = true := by
  cases v with
  | ref a => exact decide_eq_true (lt_of_lt_of_le (of_decide_eq_true hv) h.size)
  | _ => rfl

end Extends

/-! ## What changes of a store do to it -/

theorem cell?_push (s : Store) (c : Cell) (b : Address) :
    (s.push c).cell? b = if b = s.nextAddress then some c else s.cell? b := by
  by_cases hb : b = s.nextAddress
  · rw [if_pos hb, hb, cell?_push_next]
  · rw [if_neg hb]
    rcases Nat.lt_or_gt_of_ne hb with hlt | hgt
    · exact cell?_push_of_lt s c b hlt
    · have hnone : s.cell? b = none := Array.getElem?_eq_none (Nat.le_of_lt hgt)
      rw [hnone]
      exact Array.getElem?_eq_none (by rw [push, Array.size_push]; exact hgt)

theorem cell?_nextAddress (s : Store) : s.cell? s.nextAddress = none :=
  Array.getElem?_eq_none (le_refl _)

theorem cell?_push_of_some {c d : Cell} (h : s.cell? b = some d) :
    (s.push c).cell? b = some d := by
  rw [cell?_push, if_neg, h]
  rintro rfl
  rw [cell?_nextAddress] at h
  cases h

theorem cellOf?_push_of_some {c d : Cell} (h : s.cellOf? v = some d) :
    (s.push c).cellOf? v = some d := by
  cases v with
  | ref b => exact cell?_push_of_some h
  | _ => cases h

theorem formOf?_eq_some {f : Form} :
    s.formOf? v = some f ↔ ∃ n, s.cellOf? v = some (.node n) ∧ n.form = f := by
  rw [formOf?, Option.map_eq_some_iff]
  cases v with
  | ref a => simp only [nodeOf?, node?_eq_some, cellOf?]
  | _ => simp [nodeOf?, cellOf?]

theorem listOf?_eq_some {w : Value} : s.listOf? v = some w ↔
    ∃ n, s.cellOf? v = some (.node n) ∧ n.get? .nodes = some w := by
  rw [listOf?, Option.bind_eq_some_iff]
  cases v with
  | ref a => simp only [nodeOf?, node?_eq_some, cellOf?]
  | _ => simp [nodeOf?, cellOf?]

/-- A new cell takes nothing away. -/
theorem extends_push (s : Store) (c : Cell) : s.Extends (s.push c) where
  size := by simp [push]
  forms v f hv := by
    obtain ⟨n, hn, hf⟩ := formOf?_eq_some.mp hv
    exact formOf?_eq_some.mpr ⟨n, cellOf?_push_of_some hn, hf⟩
  lists v xs hv := ⟨[], by rw [List.append_nil, cellOf?_push_of_some hv], by simp⟩
  tuples v xs hv := cellOf?_push_of_some hv
  sets v xs hv := cellOf?_push_of_some hv
  dicts v es hv := cellOf?_push_of_some hv
  listOf? v w hv := by
    obtain ⟨n, hn, hw⟩ := listOf?_eq_some.mp hv
    exact listOf?_eq_some.mpr ⟨n, cellOf?_push_of_some hn, hw⟩

theorem cell?_replace {c d : Cell} (h : s.cell? a = some c) (b : Address) :
    (s.replace a d).cell? b = if b = a then some d else s.cell? b := by
  by_cases hb : b = a
  · rw [if_pos hb, hb]
    exact cell?_replace_self s a d (Array.getElem?_eq_some_iff.mp h).1
  · rw [if_neg hb]
    exact cell?_replace_of_ne s a b d hb

theorem node?_replace_node (h : s.node? a = some n) (b : Address) :
    (s.replace a (.node m)).node? b = if b = a then some m else s.node? b := by
  rw [node?, cell?_replace (node?_eq_some.mp h)]
  by_cases hb : b = a
  · rw [if_pos hb, if_pos hb]
  · rw [if_neg hb, if_neg hb, node?]

/-- Another node at an address changes no collection. -/
theorem cellOf?_replace_node {c : Cell} (h : s.node? a = some n) (hv : s.cellOf? v = some c)
    (hc : ∀ k, c ≠ .node k) : (s.replace a (.node m)).cellOf? v = some c := by
  cases v with
  | ref b =>
    have hcell := node?_eq_some.mp h
    refine (cell?_replace hcell b).trans ?_
    rw [if_neg, ← hv, cellOf?]
    rintro rfl
    rw [cellOf?, hcell] at hv
    exact hc n (Option.some.inj hv).symm
  | _ => cases hv

theorem cellOf?_ref_replace_node (h : s.node? a = some n) (b : Address) :
    (s.replace a (.node m)).cellOf? (.ref b) = if b = a then some (.node m) else s.cell? b :=
  cell?_replace (node?_eq_some.mp h) b

/-- A node with other fields takes nothing away, if it keeps its form and its list. -/
theorem extends_replace_node (h : s.node? a = some n) (hform : m.form = n.form)
    (hlist : ∀ w, n.get? .nodes = some w → m.get? .nodes = some w) :
    s.Extends (s.replace a (.node m)) where
  size := by simp [replace]
  forms v f hv := by
    obtain ⟨k, hk, hf⟩ := formOf?_eq_some.mp hv
    cases v with
    | ref b =>
      refine formOf?_eq_some.mpr ?_
      rw [cellOf?_ref_replace_node h]
      by_cases hb : b = a
      · subst hb
        cases hk.symm.trans (node?_eq_some.mp h)
        exact ⟨m, by rw [if_pos rfl], hform.trans hf⟩
      · exact ⟨k, by rw [if_neg hb]; exact hk, hf⟩
    | _ => cases hk
  lists v xs hv :=
    ⟨[], by rw [List.append_nil, cellOf?_replace_node h hv (by simp)], by simp⟩
  tuples v xs hv := cellOf?_replace_node h hv (by simp)
  sets v xs hv := cellOf?_replace_node h hv (by simp)
  dicts v es hv := cellOf?_replace_node h hv (by simp)
  listOf? v w hv := by
    obtain ⟨k, hk, hw⟩ := listOf?_eq_some.mp hv
    cases v with
    | ref b =>
      refine listOf?_eq_some.mpr ?_
      rw [cellOf?_ref_replace_node h]
      by_cases hb : b = a
      · subst hb
        cases hk.symm.trans (node?_eq_some.mp h)
        exact ⟨m, by rw [if_pos rfl], hlist w hw⟩
      · exact ⟨k, by rw [if_neg hb]; exact hk, hw⟩
    | _ => cases hk

theorem extends_updateNode (a : Address) {g : Node → Node} (hform : ∀ n, (g n).form = n.form)
    (hlist : ∀ n w, n.get? .nodes = some w → (g n).get? .nodes = some w) :
    s.Extends (s.updateNode a g) := by
  rw [updateNode]
  cases hn : s.node? a with
  | none => exact .refl s
  | some n => exact extends_replace_node hn (hform n) (hlist n)

/-- A longer list at an address changes nothing else. -/
theorem cellOf?_replace_list {xs ys : List Value} {c : Cell} (h : s.cell? a = some (.list xs))
    (hv : s.cellOf? v = some c) (hc : ∀ zs, c ≠ .list zs) :
    (s.replace a (.list ys)).cellOf? v = some c := by
  cases v with
  | ref b =>
    refine (cell?_replace h b).trans ?_
    rw [if_neg, ← hv, cellOf?]
    rintro rfl
    rw [cellOf?, h] at hv
    exact hc xs (Option.some.inj hv).symm
  | _ => cases hv

/-- A list that got nodes at its end. -/
theorem extends_replace_list {xs ys : List Value} (h : s.cell? a = some (.list xs))
    (hys : ∀ y ∈ ys, s.isForm y .node = true) :
    s.Extends (s.replace a (.list (xs ++ ys))) := by
  have hforms : ∀ v f, s.formOf? v = some f →
      (s.replace a (.list (xs ++ ys))).formOf? v = some f := by
    intro v f hv
    obtain ⟨n, hn, hf⟩ := formOf?_eq_some.mp hv
    exact formOf?_eq_some.mpr ⟨n, cellOf?_replace_list h hn (by simp), hf⟩
  refine ⟨by simp [replace], hforms, ?_, fun v zs hv => cellOf?_replace_list h hv (by simp),
    fun v zs hv => cellOf?_replace_list h hv (by simp),
    fun v es hv => cellOf?_replace_list h hv (by simp), fun v w hv => ?_⟩
  swap
  · obtain ⟨n, hn, hw⟩ := listOf?_eq_some.mp hv
    exact listOf?_eq_some.mpr ⟨n, cellOf?_replace_list h hn (by simp), hw⟩
  intro v zs hv
  cases v with
  | ref b =>
    simp only [cellOf?, cell?_replace h] at hv ⊢
    by_cases hb : b = a
    · subst hb
      rw [h] at hv
      cases hv
      refine ⟨ys, by rw [if_pos rfl], fun y hy => ?_⟩
      obtain ⟨g, hg, hgf⟩ := isForm_iff.mp (hys y hy)
      exact isForm_iff.mpr ⟨g, hforms y g hg, hgf⟩
    · exact ⟨[], by rw [if_neg hb, hv, List.append_nil], by simp⟩
  | _ => cases hv

/-- The same cells, whatever the counters say. -/
theorem extends_of_cells (h : t.cells = s.cells) : s.Extends t := by
  have hcell : ∀ v, t.cellOf? v = s.cellOf? v := by
    intro v
    cases v with
    | ref a => simp only [cellOf?, cell?, h]
    | _ => rfl
  refine ⟨by rw [h], fun v f hv => ?_, fun v xs hv => ⟨[], by rw [hcell, hv, List.append_nil],
    by simp⟩, fun v xs hv => by rw [hcell, hv], fun v xs hv => by rw [hcell, hv],
    fun v es hv => by rw [hcell, hv], fun v w hv => ?_⟩
  · rw [formOf?_eq_some] at hv ⊢
    rwa [hcell]
  · rw [listOf?_eq_some] at hv ⊢
    rwa [hcell]

end Store

namespace Hint

variable {s t : Store} {v : Value} {h : Hint}

theorem loose_loose (h : Hint) : h.loose.loose = h.loose := by
  induction h with
  | either g k ihg ihk => simp only [loose, ihg, ihk]
  | items f =>
    rw [loose]
    split
    · rfl
    · rfl
  | _ => rfl

/-- What is met in full is met loosely. -/
theorem meets_loose (hv : h.meets s v = true) : h.loose.meets s v = true := by
  induction h with
  | either g k ihg ihk =>
    simp only [loose, meets, Bool.or_eq_true] at hv ⊢
    exact hv.imp ihg ihk
  | items f =>
    simp only [meets, Bool.or_eq_true] at hv
    have hitems : ∀ p : Value → Bool, (∀ x, s.isForm x f = true → s.isOutlined x = true →
        p x = true) → s.isForm v .nodeList = true ∨ s.allItems p v = true := by
      intro p hp
      refine hv.imp id fun hall => ?_
      obtain ⟨c, xs, hc, hxs, hall⟩ := Store.allItems_iff.mp hall
      refine Store.allItems_iff.mpr ⟨c, xs, hc, hxs, fun x hx => ?_⟩
      obtain ⟨hform, hout⟩ := Bool.and_eq_true_iff.mp (hall x hx)
      exact hp x hform hout
    rw [loose]
    split
    · next hf =>
      simp only [meets, Bool.or_eq_true]
      refine hitems _ fun x hx hout => ?_
      obtain ⟨g, hg, hgf⟩ := Store.isForm_iff.mp hx
      rw [hout, Bool.and_true]
      exact Store.isForm_iff.mpr ⟨g, hg, Form.isA_trans hgf hf⟩
    · simp only [meets, Bool.or_eq_true]
      exact hitems _ fun x _ hout => hout
  | members f | words =>
    obtain ⟨c, -, hc, -⟩ := Store.allItems_iff.mp hv
    exact Store.holds_of_cellOf? hc
  | _ => exact hv

/-- What is met loosely is met in a store that has grown. -/
theorem meets_extends (hst : s.Extends t) (hv : h.loose.meets s v = true) :
    h.loose.meets t v = true := by
  induction h with
  | either g k ihg ihk =>
    simp only [loose, meets, Bool.or_eq_true] at hv ⊢
    exact hv.imp ihg ihk
  | node f => exact hst.isForm hv
  | exactly f => exact decide_eq_true (hst.forms v f (of_decide_eq_true hv))
  | items f =>
    rw [loose] at hv ⊢
    split at hv
    · next hf =>
      rw [if_pos hf]
      simp only [meets, Bool.or_eq_true] at hv ⊢
      refine hv.imp hst.isForm (hst.allItems (p := fun s x => s.isForm x .node && s.isOutlined x)
        (fun x hx => ?_) fun x hx => ?_)
      · simp only [Bool.and_eq_true] at hx ⊢
        exact ⟨hst.isForm hx.1, hst.isOutlined hx.2⟩
      · simp only [hx, Store.isOutlined, Bool.true_or, Bool.and_true]
    · next hf =>
      rw [if_neg hf]
      exact series_extends hst hv
  | series => exact series_extends hst hv
  | members f | words | anything => exact hst.holds hv
  | entries f =>
    simp only [loose, meets] at hv ⊢
    split at hv
    · next es hes =>
      rw [hst.dicts v es hes]
      simp only [List.all_eq_true, Bool.and_eq_true] at hv ⊢
      exact fun e he => ⟨hst.isForm (hv e he).1, hst.isForm (hv e he).2⟩
    · exact absurd hv (by simp)
  | nodes => exact hst.isListOfNodes hv
  | growing =>
    simp only [loose, meets, Bool.and_eq_true] at hv ⊢
    refine ⟨hst.isForm hv.1, ?_⟩
    obtain ⟨w, hw, hlist⟩ := (Option.any_eq_true _ _).mp hv.2
    simp only [hst.listOf? v w hw, Option.any_some, Bool.and_eq_true] at hlist ⊢
    exact ⟨hlist.1, hst.isListOfNodes hlist.2⟩
  | pair =>
    simp only [loose, meets] at hv ⊢
    split at hv
    · next x y hxy =>
      rw [hst.tuples v _ hxy]
      exact hv
    · exact absurd hv (by simp)
  | _ => exact hv
where
  series_extends {v : Value} (hst : s.Extends t) (hv : Hint.series.meets s v = true) :
      Hint.series.meets t v = true := by
    simp only [meets, Bool.or_eq_true] at hv ⊢
    refine hv.imp hst.isForm (hst.allItems (fun x hx => hst.isOutlined hx) fun x hx => ?_)
    simp only [Store.isOutlined, hx, Bool.true_or]

/-- What is as some hint says refers to a cell, if it refers to anything. -/
theorem holds_of_meets (hv : h.meets s v = true) : s.holds v = true := by
  have hitems : ∀ p, s.isForm v .nodeList = true ∨ s.allItems p v = true → s.holds v = true := by
    intro p hv
    rcases hv with hform | hall
    · exact Store.holds_of_isForm hform
    · obtain ⟨c, -, hc, -⟩ := Store.allItems_iff.mp hall
      exact Store.holds_of_cellOf? hc
  induction h with
  | either g k ihg ihk =>
    simp only [meets, Bool.or_eq_true] at hv
    exact hv.elim ihg ihk
  | node f => exact Store.holds_of_isForm hv
  | exactly f =>
    obtain ⟨n, hn, -⟩ := Store.formOf?_eq_some.mp (of_decide_eq_true hv)
    exact Store.holds_of_cellOf? hn
  | items f => exact hitems _ (by simpa only [meets, Bool.or_eq_true] using hv)
  | series => exact hitems _ (by simpa only [meets, Bool.or_eq_true] using hv)
  | members f => exact meets_loose (h := .members f) hv
  | words => exact meets_loose (h := .words) hv
  | anything => exact hv
  | growing =>
    simp only [meets, Bool.and_eq_true] at hv
    exact Store.holds_of_isForm hv.1
  | entries f | nodes | pair =>
    simp only [meets, Store.isListOfNodes] at hv
    split at hv
    · next hc => exact Store.holds_of_cellOf? hc
    · exact absurd hv (by simp)
  | absent | text | bool | int | float | member e =>
    cases v with
    | ref a => exact absurd hv (by simp [meets, isText, isNumber])
    | _ => rfl

end Hint

/-! ## Drafts -/

/-- What is known of the nodes that are not finished. -/
abbrev Drafts := Address → Option (List (Field × Hint))

namespace Drafts

/-- What a reader may rely on of the node at an address. Where its cursor stands is
nothing to rely on. -/
def promised (D : Drafts) (a : Address) (f : Form) : List (Field × Hint) :=
  ((D a).getD f.kept).filter fun e => e.1 ≠ .position

/-- The node at an address is a draft with some fields. -/
def start (D : Drafts) (a : Address) (fields : List (Field × Hint)) : Drafts :=
  Function.update D a (some fields)

/-- All nodes are finished. -/
def none : Drafts := fun _ => Option.none

theorem promised_start (D : Drafts) (a : Address) (fields : List (Field × Hint)) (f : Form) :
    (D.start a fields).promised a f = fields.filter fun e => e.1 ≠ .position := by
  simp [promised, start]

theorem start_of_ne (D : Drafts) {a b : Address} (fields : List (Field × Hint)) (h : b ≠ a) :
    D.start a fields b = D b := by
  simp [start, Function.update_of_ne h]

end Drafts

/-- Fields that a node has only if it is known to have them. -/
def Form.telling (f : Form) : List Field :=
  [.nodes, .value, .byteSize, .id, .fn] ++ if f.isBare then [.name] else []

theorem Form.nodes_mem_telling (f : Form) : .nodes ∈ f.telling := by
  simp [telling]

theorem Form.byteSize_mem_telling (f : Form) : .byteSize ∈ f.telling := by
  simp [telling]

theorem Form.id_mem_telling (f : Form) : .id ∈ f.telling := by
  simp [telling]

theorem Form.mem_telling {form : Form} {f : Field} (h : f ∈ form.telling) :
    f = .nodes ∨ f = .value ∨ f = .byteSize ∨ f = .id ∨ f = .fn ∨
      f = .name ∧ form.isBare = true := by
  rw [telling] at h
  split at h
  · next hbare => simpa [hbare] using h
  · next hbare => simpa [hbare] using h

/-- The cells of the body that stands for the missing body of a class. -/
def Shared.bodyCells : List Address :=
  [Shared.noPlace, Shared.classNodes, Shared.classBody]

/-- What holds of a store with drafts. -/
structure Sound (D : Drafts) (s : Store) : Prop where
  fresh : ∀ a, s.cells.size ≤ a → D a = none
  typed : ∀ a n, s.node? a = some n → ∀ e ∈ D.promised a n.form,
    ∃ w, n.get? e.1 = some w ∧ e.2.loose.meets s w = true
  closed : ∀ a c, s.cell? a = some c → ∀ b ∈ c.targets, b < s.cells.size
  signs : ∀ a n w, s.node? a = some n → n.get? .ops = some w →
    ∃ xs, s.cellOf? w = some (.list xs) ∧ xs.all Hint.isText = true
  apart : ∀ a b n m w, s.node? a = some n → s.node? b = some m → n.get? .nodes = some w →
    m.get? .ops ≠ some w
  shared : Store.initial.Extends s
  body : ∀ a ∈ Shared.bodyCells, D a = none ∧
    ∀ c, s.cell? a = some c → ∀ b ∈ c.targets, b ∈ Shared.bodyCells
  lacking : ∀ a n f, s.node? a = some n → f ∈ n.form.telling →
    f ∉ ((D a).getD n.form.kept).map Prod.fst → n.get? f = none

namespace Sound

variable {D D' : Drafts} {s t : Store} {a : Address} {n m : Node} {c : Cell}

/-- The shared cells are where they were at the start. -/
theorem not_mem_bodyCells (hs : Sound D s) (ha : s.cells.size ≤ a) : a ∉ Shared.bodyCells := by
  have hsize : Store.initial.cells.size = 21 := rfl
  have hle := hs.shared.size
  intro hmem
  simp only [Shared.bodyCells, Shared.noPlace, Shared.classNodes, Shared.classBody,
    List.mem_cons, List.not_mem_nil, or_false] at hmem
  rcases hmem with rfl | rfl | rfl <;> omega

/-- A new cell: a collection, or a node that is a draft or holds what it should. -/
theorem push (hs : Sound D s) (hD : ∀ b, b ≠ s.nextAddress → D' b = D b)
    (htargets : ∀ b ∈ c.targets, b < s.cells.size)
    (hnode : ∀ n, c = .node n → n.get? .ops = none ∧ n.get? .nodes = none ∧
      (∀ e ∈ D'.promised s.nextAddress n.form,
        ∃ w, n.get? e.1 = some w ∧ e.2.loose.meets s w = true) ∧
      ∀ f ∈ n.form.telling, f ∉ ((D' s.nextAddress).getD n.form.kept).map Prod.fst →
        n.get? f = none) : Sound D' (s.push c) := by
  have hext := Store.extends_push s c
  have hsize : (s.push c).cells.size = s.cells.size + 1 := by simp [Store.push]
  -- A node after the push is an older one or the new one.
  have hnodes : ∀ {b k}, (s.push c).node? b = some k →
      (b = s.nextAddress ∧ c = .node k) ∨ (b ≠ s.nextAddress ∧ s.node? b = some k) := by
    intro b k hk
    rw [Store.node?_eq_some, Store.cell?_push] at hk
    by_cases hb : b = s.nextAddress
    · rw [if_pos hb] at hk
      exact .inl ⟨hb, Option.some.inj hk⟩
    · rw [if_neg hb] at hk
      exact .inr ⟨hb, Store.node?_eq_some.mpr hk⟩
  refine ⟨fun b hb => ?_, fun b k hk e he => ?_, fun b d hd x hx => ?_, fun b k w hk hw => ?_,
    fun b b' k k' w hk hk' hw hw' => ?_, hs.shared.trans hext, fun b hb => ⟨?_, fun d hd => ?_⟩,
    fun b k f hk hf hnone => ?_⟩
  · rw [hsize] at hb
    rw [hD b (Nat.ne_of_gt hb)]
    exact hs.fresh b (Nat.le_of_succ_le hb)
  · rcases hnodes hk with ⟨rfl, rfl⟩ | ⟨hb, hk⟩
    · obtain ⟨w, hw, hmeets⟩ := (hnode k rfl).2.2.1 e he
      exact ⟨w, hw, Hint.meets_extends hext hmeets⟩
    · rw [Drafts.promised, hD b hb] at he
      obtain ⟨w, hw, hmeets⟩ := hs.typed b k hk e he
      exact ⟨w, hw, Hint.meets_extends hext hmeets⟩
  · rw [hsize]
    rw [Store.cell?_push] at hd
    by_cases hb : b = s.nextAddress
    · rw [if_pos hb] at hd
      cases hd
      exact Nat.lt_succ_of_lt (htargets x hx)
    · rw [if_neg hb] at hd
      exact Nat.lt_succ_of_lt (hs.closed b d hd x hx)
  · rcases hnodes hk with ⟨rfl, rfl⟩ | ⟨-, hk⟩
    · rw [(hnode k rfl).1] at hw
      cases hw
    · obtain ⟨xs, hxs, hall⟩ := hs.signs b k w hk hw
      exact ⟨xs, Store.cellOf?_push_of_some hxs, hall⟩
  · rcases hnodes hk with ⟨rfl, rfl⟩ | ⟨-, hk⟩
    · rw [(hnode k rfl).2.1] at hw
      cases hw
    · rcases hnodes hk' with ⟨rfl, rfl⟩ | ⟨-, hk'⟩
      · rw [(hnode k' rfl).1] at hw'
        cases hw'
      · exact hs.apart b b' k k' w hk hk' hw hw'
  · rw [hD b, (hs.body b hb).1]
    rintro rfl
    exact absurd hb (hs.not_mem_bodyCells (le_refl _))
  · rw [Store.cell?_push, if_neg] at hd
    · exact (hs.body b hb).2 d hd
    · rintro rfl
      exact absurd hb (hs.not_mem_bodyCells (le_refl _))
  · rcases hnodes hk with ⟨rfl, rfl⟩ | ⟨hb, hk⟩
    · exact (hnode k rfl).2.2.2 f hf hnone
    · rw [hD b hb] at hnone
      exact hs.lacking b k f hk hf hnone

/-- Other fields for a node. -/
theorem update (hs : Sound D s) (hn : s.node? a = some n) (hform : m.form = n.form)
    (hlist : ∀ w, n.get? .nodes = some w → m.get? .nodes = some w) (hD : ∀ b, b ≠ a → D' b = D b)
    (htyped : ∀ e ∈ D'.promised a n.form,
      ∃ w, m.get? e.1 = some w ∧ e.2.loose.meets s w = true)
    (htargets : ∀ b ∈ (Cell.node m).targets, b < s.cells.size)
    (hsigns : ∀ w, m.get? .ops = some w →
      ∃ xs, s.cellOf? w = some (.list xs) ∧ xs.all Hint.isText = true)
    (hself : ∀ w, m.get? .nodes = some w → m.get? .ops ≠ some w)
    (hnodes : ∀ b k w, b ≠ a → s.node? b = some k → m.get? .nodes = some w →
      k.get? .ops ≠ some w)
    (hops : ∀ b k w, b ≠ a → s.node? b = some k → k.get? .nodes = some w →
      m.get? .ops ≠ some w)
    (hbody : a ∈ Shared.bodyCells →
      D' a = none ∧ ∀ b ∈ (Cell.node m).targets, b ∈ Shared.bodyCells)
    (hlacking : ∀ f ∈ n.form.telling, f ∉ ((D' a).getD n.form.kept).map Prod.fst →
      m.get? f = none) :
    Sound D' (s.replace a (.node m)) := by
  have hext := Store.extends_replace_node hn hform hlist
  have hcell := Store.node?_eq_some.mp hn
  have hsize : (s.replace a (.node m)).cells.size = s.cells.size := by simp [Store.replace]
  refine ⟨fun b hb => ?_, fun b k hk e he => ?_, fun b d hd x hx => ?_, fun b k w hk hw => ?_,
    fun b b' k k' w hk hk' hw hw' => ?_, hs.shared.trans hext, fun b hb => ?_,
    fun b k f hk hf hnone => ?_⟩
  · rw [hsize] at hb
    rw [hD b, hs.fresh b hb]
    rintro rfl
    exact absurd (Array.getElem?_eq_some_iff.mp hcell).1 (Nat.not_lt.mpr hb)
  · rw [Store.node?_replace_node hn] at hk
    by_cases hb : b = a
    · subst hb
      rw [if_pos rfl] at hk
      cases hk
      rw [hform] at he
      obtain ⟨w, hw, hmeets⟩ := htyped e he
      exact ⟨w, hw, Hint.meets_extends hext hmeets⟩
    · rw [if_neg hb] at hk
      rw [Drafts.promised, hD b hb] at he
      obtain ⟨w, hw, hmeets⟩ := hs.typed b k hk e he
      exact ⟨w, hw, Hint.meets_extends hext hmeets⟩
  · rw [hsize]
    rw [Store.cell?_replace hcell] at hd
    by_cases hb : b = a
    · rw [if_pos hb] at hd
      cases hd
      exact htargets x hx
    · rw [if_neg hb] at hd
      exact hs.closed b d hd x hx
  · have hold : ∃ xs, s.cellOf? w = some (.list xs) ∧ xs.all Hint.isText = true := by
      rw [Store.node?_replace_node hn] at hk
      by_cases hb : b = a
      · rw [if_pos hb] at hk
        cases hk
        exact hsigns w hw
      · rw [if_neg hb] at hk
        exact hs.signs b k w hk hw
    obtain ⟨xs, hxs, hall⟩ := hold
    exact ⟨xs, Store.cellOf?_replace_node hn hxs (by simp), hall⟩
  · rw [Store.node?_replace_node hn] at hk hk'
    by_cases hb : b = a
    · rw [if_pos hb] at hk
      cases hk
      by_cases hb' : b' = a
      · rw [if_pos hb'] at hk'
        cases hk'
        exact hself w hw hw'
      · rw [if_neg hb'] at hk'
        exact hnodes b' k' w hb' hk' hw hw'
    · rw [if_neg hb] at hk
      by_cases hb' : b' = a
      · rw [if_pos hb'] at hk'
        cases hk'
        exact hops b k w hb hk hw hw'
      · rw [if_neg hb'] at hk'
        exact hs.apart b b' k k' w hk hk' hw hw'
  · by_cases hba : b = a
    · subst hba
      refine ⟨(hbody hb).1, fun d hd => ?_⟩
      rw [Store.cell?_replace hcell, if_pos rfl] at hd
      cases hd
      exact (hbody hb).2
    · rw [hD b hba]
      refine ⟨(hs.body b hb).1, fun d hd => ?_⟩
      rw [Store.cell?_replace hcell, if_neg hba] at hd
      exact (hs.body b hb).2 d hd
  · rw [Store.node?_replace_node hn] at hk
    by_cases hb : b = a
    · subst hb
      rw [if_pos rfl] at hk
      cases hk
      rw [hform] at hf hnone
      exact hlacking f hf hnone
    · rw [if_neg hb] at hk
      rw [hD b hb] at hnone
      exact hs.lacking b k f hk hf hnone

/-- A node at the end of the list of a container. -/
theorem append_list (hs : Sound D s) {l : Address} {xs : List Value} {x : Value}
    (hn : s.node? a = some n) (hl : n.get? .nodes = some (.ref l))
    (hxs : s.cell? l = some (.list xs)) (hx : s.isForm x .node = true)
    (hbody : l ∉ Shared.bodyCells) : Sound D (s.replace l (.list (xs ++ [x]))) := by
  have hext : s.Extends (s.replace l (.list (xs ++ [x]))) :=
    Store.extends_replace_list hxs (by simpa using hx)
  have hsize : (s.replace l (.list (xs ++ [x]))).cells.size = s.cells.size := by
    simp [Store.replace]
  have hnode : ∀ b, (s.replace l (.list (xs ++ [x]))).node? b = s.node? b := fun b =>
    Build.nodeOf?_replace_list hxs (.ref b)
  refine ⟨fun b hb => ?_, fun b k hk e he => ?_, fun b d hd y hy => ?_, fun b k w hk hw => ?_,
    fun b b' k k' w hk hk' => ?_, hs.shared.trans hext, fun b hb => ⟨(hs.body b hb).1, ?_⟩,
    fun b k f hk => hs.lacking b k f (hnode b ▸ hk)⟩
  · rw [hsize] at hb
    exact hs.fresh b hb
  · rw [hnode] at hk
    obtain ⟨w, hw, hmeets⟩ := hs.typed b k hk e he
    exact ⟨w, hw, Hint.meets_extends hext hmeets⟩
  · rw [hsize]
    rw [Store.cell?_replace hxs] at hd
    by_cases hb : b = l
    · rw [if_pos hb] at hd
      cases hd
      simp only [Cell.targets, List.filterMap_append, List.mem_append] at hy
      rcases hy with hy | hy
      · exact hs.closed l _ hxs y hy
      · obtain ⟨g, hg, -⟩ := Store.isForm_iff.mp hx
        obtain ⟨z, rfl, hlt⟩ := Store.ref_of_formOf? hg
        simp only [List.filterMap_cons, Cell.targets.address?, List.filterMap_nil,
          List.mem_singleton] at hy
        rw [hy]
        exact hlt
    · rw [if_neg hb] at hd
      exact hs.closed b d hd y hy
  · rw [hnode] at hk
    obtain ⟨ys, hys, hall⟩ := hs.signs b k w hk hw
    refine ⟨ys, ?_, hall⟩
    -- The list of a container is no list of signs.
    cases w with
    | ref z =>
      refine (Store.cell?_replace hxs z).trans ?_
      rw [if_neg, ← hys, Store.cellOf?]
      rintro rfl
      exact hs.apart a b n k _ hn hk hl hw
    | _ => cases hys
  · rw [hnode] at hk hk'
    exact hs.apart b b' k k' w hk hk'
  · intro d hd
    rw [Store.cell?_replace hxs, if_neg] at hd
    · exact (hs.body b hb).2 d hd
    · rintro rfl
      exact hbody hb

/-- The same cells, whatever the counters say. -/
theorem of_cells (hs : Sound D s) (h : t.cells = s.cells) : Sound D t := by
  have hext := Store.extends_of_cells h
  have hcell : ∀ b, t.cell? b = s.cell? b := fun b => by simp only [Store.cell?, h]
  have hnode : ∀ b, t.node? b = s.node? b := fun b => by simp only [Store.node?, hcell]
  refine ⟨fun b hb => hs.fresh b (h ▸ hb), fun b k hk e he => ?_, fun b d hd => ?_,
    fun b k w hk hw => ?_, fun b b' k k' w hk hk' => ?_, hs.shared.trans hext, fun b hb => ?_,
    fun b k f hk => hs.lacking b k f (hnode b ▸ hk)⟩
  · obtain ⟨w, hw, hmeets⟩ := hs.typed b k (hnode b ▸ hk) e he
    exact ⟨w, hw, Hint.meets_extends hext hmeets⟩
  · rw [h]
    exact hs.closed b d (hcell b ▸ hd)
  · obtain ⟨xs, hxs, hall⟩ := hs.signs b k w (hnode b ▸ hk) hw
    obtain ⟨ys, hys, -⟩ := hext.lists w xs hxs
    cases w with
    | ref z => exact ⟨xs, (hcell z).trans hxs, hall⟩
    | _ => cases hxs
  · exact hs.apart b b' k k' w (hnode b ▸ hk) (hnode b' ▸ hk')
  · exact ⟨(hs.body b hb).1, fun d hd => (hs.body b hb).2 d (hcell b ▸ hd)⟩

end Sound

end ProgramTree
