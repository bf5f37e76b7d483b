/-
What the parts of constructors leave behind.

`Leads D F x D' G` says of a part of a constructor: if the store is sound with the drafts
`D` and the facts `F` hold of some values, then afterwards it is sound with the drafts
`D'`, and the facts `G` hold as well. Facts are hints that values meet. They stay true
while the store grows, so a sequence of parts keeps all facts that its parts found
(`Leads.bind`), and each part needs a statement only about what it does itself.

A node is made in a draft of its own (`leads_make`). When the fields that the draft got
cover what its form promises, the node is finished.
-/
import ProgramTree.Proofs.Drafts

namespace ProgramTree

open Look

/-- Values and what they are. -/
abbrev Facts := List (Hint × Value)

/-- All facts hold. -/
def Facts.Hold (F : Facts) (s : Store) : Prop :=
  ∀ e ∈ F, e.1.loose.meets s e.2 = true

variable {α β : Type} {D D' D'' : Drafts} {F G H : Facts} {a b : Address} {s t : Store} {n : Node}
  {f : Field} {v : Value} {h : Hint} {fields : List (Field × Hint)} {xs : List Value} {form : Form}
  {args : Arguments}

namespace Facts

theorem Hold.extends (h : F.Hold s) (hst : s.Extends t) : F.Hold t := fun e he =>
  Hint.meets_extends hst (h e he)

theorem Hold.append (hF : F.Hold s) (hG : G.Hold s) : Hold (F ++ G) s := by
  intro e he
  rcases List.mem_append.mp he with he | he
  · exact hF e he
  · exact hG e he

end Facts

namespace Build

/-- What a build leads to, if it goes well. -/
def Leads (D : Drafts) (F : Facts) (x : Build α) (D' : Drafts) (G : α → Facts) : Prop :=
  ∀ s r t, Sound D s → F.Hold s → x s = (.ok r, t) →
    Sound D' t ∧ (G r).Hold t ∧ s.Extends t

/-! ## Sequences -/

theorem Leads.bind {x : Build α} {f : α → Build β} {G : α → Facts} {H : β → Facts}
    (hx : Leads D F x D' G) (hf : ∀ r, Leads D' (F ++ G r) (f r) D'' H) :
    Leads D F (x >>= f) D'' H := by
  intro s r t hs hF h
  obtain ⟨w, u, hxs, hfs⟩ := andThen_eq_ok.mp h
  obtain ⟨hu, hG, hsu⟩ := hx s w u hs hF hxs
  obtain ⟨ht, hH, hut⟩ := hf w u r t hu ((hF.extends hsu).append hG) hfs
  exact ⟨ht, hH, hsu.trans hut⟩

/-- Facts that are not needed. -/
theorem Leads.mono {x : Build α} {G : α → Facts} {F' : Facts} (h : Leads D F x D' G)
    (hF : ∀ e ∈ F, e ∈ F') : Leads D F' x D' G := fun s r t hs hF' hx =>
  h s r t hs (fun e he => hF' e (hF e he)) hx

/-- Facts that are not needed afterwards. -/
theorem Leads.forget {x : Build α} {G : α → Facts} (h : Leads D F x D' G) :
    Leads D F x D' fun _ => [] := by
  intro s r t hs hF hx
  obtain ⟨ht, -, hst⟩ := h s r t hs hF hx
  exact ⟨ht, by simp [Facts.Hold], hst⟩

theorem leads_pure (r : α) {G : α → Facts} (hG : ∀ e ∈ G r, e ∈ F) : Leads D F (pure r) D G := by
  intro s r' t hs hF h
  cases h
  exact ⟨hs, fun e he => hF e (hG e he), .refl s⟩

theorem Fails.leads {x : Build α} (h : Fails x) {G : α → Facts} : Leads D F x D' G :=
  fun s r t _ _ hx => absurd hx (h s r t)

end Build

namespace Cell

/-- The addresses in a node after a field was set. -/
theorem mem_targets_set (h : b ∈ (Cell.node (n.set f v)).targets) :
    b ∈ (Cell.node n).targets ∨ v = .ref b := by
  simp only [targets, List.mem_filterMap, Prod.exists] at h ⊢
  obtain ⟨g, w, hmem, hw⟩ := h
  have hput : ∀ fields : List (Field × Value), (g, w) ∈ Node.set.put f v fields →
      (g, w) ∈ fields ∨ w = v := by
    intro fields
    induction fields with
    | nil =>
      intro hmem
      simp only [Node.set.put, List.mem_singleton, Prod.mk.injEq] at hmem
      exact .inr hmem.2
    | cons e rest ih =>
      intro hmem
      obtain ⟨k, x⟩ := e
      unfold Node.set.put at hmem
      split at hmem
      · rcases List.mem_cons.mp hmem with heq | hmem
        · exact .inr (Prod.mk.inj heq).2
        · exact .inl (List.mem_cons_of_mem _ hmem)
      · rcases List.mem_cons.mp hmem with heq | hmem
        · exact .inl (heq ▸ List.mem_cons_self ..)
        · exact (ih hmem).imp (List.mem_cons_of_mem _) id
  rcases hput n.fields hmem with hmem | rfl
  · exact .inl ⟨g, w, hmem, hw⟩
  · refine .inr ?_
    cases w with
    | ref c => rw [Option.some.inj hw]
    | _ => cases hw

theorem mem_filterMap_address? : b ∈ xs.filterMap targets.address? ↔ .ref b ∈ xs := by
  rw [List.mem_filterMap]
  constructor
  · rintro ⟨v, hv, hb⟩
    cases v with
    | ref c =>
      cases hb
      exact hv
    | _ => cases hb
  · exact fun h => ⟨_, h, rfl⟩

theorem mem_targets_of_get? (h : n.get? f = some (.ref b)) : b ∈ (Cell.node n).targets := by
  simp only [targets, List.mem_filterMap, Prod.exists]
  have hmem : (f, Value.ref b) ∈ n.fields := by
    obtain ⟨l₁, l₂, heq, -⟩ := List.lookup_eq_some_iff.mp h
    rw [heq]
    simp
  exact ⟨f, .ref b, hmem, rfl⟩

end Cell

namespace Sound

/-- A draft is an address in use, and not one of the shared cells. -/
theorem draft (hs : Sound (D.start a fields) s) : a < s.cells.size ∧ a ∉ Shared.bodyCells := by
  have hsome : D.start a fields a = some fields := Function.update_self ..
  constructor
  · refine Nat.lt_of_not_le fun hle => ?_
    rw [hs.fresh a hle] at hsome
    cases hsome
  · intro hmem
    rw [(hs.body a hmem).1] at hsome
    cases hsome

/-- The values of fields are there. -/
theorem holds_get? (hs : Sound D s) (hn : s.node? a = some n) {w : Value} (hw : n.get? f = some w) :
    s.holds w = true := by
  cases w with
  | ref b =>
    exact decide_eq_true (hs.closed a _ (Store.node?_eq_some.mp hn) b (Cell.mem_targets_of_get? hw))
  | _ => rfl

/-- What is known of a node changes, and the store does not. -/
theorem redraft (hs : Sound D s) (hD : ∀ b, b ≠ a → D' b = D b) (ha : a < s.cells.size)
    (hbody : a ∉ Shared.bodyCells)
    (htyped : ∀ n, s.node? a = some n → ∀ e ∈ D'.promised a n.form,
      ∃ w, n.get? e.1 = some w ∧ e.2.loose.meets s w = true)
    (hlacking : ∀ n f, s.node? a = some n → f ∈ n.form.telling →
      f ∉ ((D' a).getD n.form.kept).map Prod.fst → n.get? f = none) : Sound D' s := by
  refine ⟨fun b hb => ?_, fun b k hk e he => ?_, hs.closed, hs.signs, hs.apart, hs.shared,
    fun b hb => ?_, fun b k f hk hf hnone => ?_⟩
  · rw [hD b, hs.fresh b hb]
    rintro rfl
    exact absurd ha (Nat.not_lt.mpr hb)
  · by_cases hb : b = a
    · subst hb
      exact htyped k hk e he
    · rw [Drafts.promised, hD b hb] at he
      exact hs.typed b k hk e he
  · rw [hD b]
    · exact hs.body b hb
    · rintro rfl
      exact hbody hb
  · by_cases hb : b = a
    · subst hb
      exact hlacking k f hk hf hnone
    · rw [hD b hb] at hnone
      exact hs.lacking b k f hk hf hnone

/-- A field other than those of lists is set to something that is there. -/
theorem setField (hs : Sound D s) (hD : ∀ b, b ≠ a → D' b = D b) (ha : a < s.cells.size)
    (hbody : a ∉ Shared.bodyCells) (hf : f ≠ .nodes ∧ f ≠ .ops) (hv : s.holds v = true)
    (htyped : ∀ n, s.node? a = some n → ∀ e ∈ D'.promised a n.form,
      ∃ w, (n.set f v).get? e.1 = some w ∧ e.2.loose.meets s w = true)
    (hlacking : ∀ n g, s.node? a = some n → g ∈ n.form.telling →
      g ∉ ((D' a).getD n.form.kept).map Prod.fst → (n.set f v).get? g = none) :
    Sound D' (s.updateNode a fun n => n.set f v) := by
  rw [Store.updateNode]
  cases hn : s.node? a with
  | none =>
    refine hs.redraft hD ha hbody (fun n hn' => ?_) fun n g hn' => ?_
    · rw [hn] at hn'
      cases hn'
    · rw [hn] at hn'
      cases hn'
  | some n =>
    have hget : ∀ g, g ≠ f → (n.set f v).get? g = n.get? g := fun g hg => by
      rw [Node.get?_set, if_neg hg]
    have hnodes := hget .nodes hf.1.symm
    have hops := hget .ops hf.2.symm
    refine hs.update hn rfl (fun w hw => hnodes.trans hw) hD (htyped n hn) ?_ ?_ ?_ ?_ ?_
      (fun hmem => absurd hmem hbody) fun g => hlacking n g hn
    · intro b hb
      rcases Cell.mem_targets_set hb with hb | rfl
      · exact hs.closed a _ (Store.node?_eq_some.mp hn) b hb
      · exact of_decide_eq_true hv
    · intro w hw
      exact hs.signs a n w hn (hops ▸ hw)
    · intro w hw hw'
      exact hs.apart a a n n w hn hn (hnodes ▸ hw) (hops ▸ hw')
    · intro b k w _ hk hw
      exact hs.apart a b n k w hn hk (hnodes ▸ hw)
    · intro b k w _ hk hw hw'
      exact hs.apart b a k n w hk hn hw (hops ▸ hw')

/-- The addresses in a node do not depend on its cursor. -/
theorem mem_targets_move {p : Int} (hb : b ∈ (Cell.node (n.set .position (.int p))).targets) :
    b ∈ (Cell.node n).targets := by
  rcases Cell.mem_targets_set hb with hb | hb
  · exact hb
  · cases hb

theorem applyMove (hs : Sound D s) (m : Move) : Sound D (s.applyMove m) := by
  rw [Store.applyMove, Store.updateNode]
  cases hn : s.node? m.container with
  | none => exact hs
  | some n =>
    have hget : ∀ g, g ≠ .position → (n.set .position (.int m.position)).get? g = n.get? g :=
      fun g hg => by rw [Node.get?_set, if_neg hg]
    have hnodes := hget .nodes (by decide)
    have hops := hget .ops (by decide)
    have hcell := Store.node?_eq_some.mp hn
    refine hs.update hn rfl (fun w hw => hnodes.trans hw) (fun _ _ => rfl) ?_ ?_ ?_ ?_ ?_ ?_ ?_
      fun g hg hnone => (hget g ?_).trans (hs.lacking _ n g hn hg hnone)
    · intro e he
      obtain ⟨w, hw, hmeets⟩ := hs.typed _ n hn e he
      have hne : e.1 ≠ .position := of_decide_eq_true (List.mem_filter.mp he).2
      exact ⟨w, (hget e.1 hne).trans hw, hmeets⟩
    · intro b hb
      exact hs.closed _ _ hcell b (mem_targets_move hb)
    · intro w hw
      exact hs.signs _ n w hn (hops ▸ hw)
    · intro w hw hw'
      exact hs.apart _ _ n n w hn hn (hnodes ▸ hw) (hops ▸ hw')
    · intro b k w _ hk hw
      exact hs.apart _ b n k w hn hk (hnodes ▸ hw)
    · intro b k w _ hk hw hw'
      exact hs.apart b _ k n w hk hn hw (hops ▸ hw')
    · intro hmem
      refine ⟨(hs.body _ hmem).1, fun b hb => ?_⟩
      exact (hs.body _ hmem).2 _ hcell b (mem_targets_move hb)
    · rintro rfl
      exact absurd (Form.mem_telling hg) (by simp)

/-- Moves of cursors are nothing that anybody could notice. -/
theorem applyMoves (hs : Sound D s) (moves : List Move) :
    Sound D (s.applyMoves moves) ∧ s.Extends (s.applyMoves moves) := by
  induction moves generalizing s with
  | nil => exact ⟨hs, .refl s⟩
  | cons m moves ih =>
    obtain ⟨hsound, hext⟩ := ih (hs.applyMove m)
    have hmove : s.Extends (s.applyMove m) := by
      refine Store.extends_updateNode m.container (fun _ => rfl) fun n w hw => ?_
      rw [Node.get?_set, if_neg (by decide), hw]
    exact ⟨hsound, hmove.trans hext⟩

end Sound

/-! ## Fields -/

namespace Facts

/-- A value is as a hint says wherever the facts hold. -/
def Gives (F : Facts) (h : Hint) (v : Value) : Prop :=
  ∀ s, Store.initial.Extends s → F.Hold s → h.loose.meets s v = true

theorem gives_of_mem (hmem : (h, v) ∈ F) : F.Gives h v := fun _ _ hF => hF _ hmem

/-- What is as it should be among the shared cells. -/
theorem gives_shared (hv : h.loose.meets Store.initial v = true) : F.Gives h v := fun _ hs _ =>
  Hint.meets_extends hs hv

theorem Gives.loose (hv : F.Gives h v) : F.Gives h.loose v := fun s hs hF =>
  (Hint.loose_loose h).symm ▸ hv s hs hF

theorem Gives.anything (hv : F.Gives h v) : F.Gives .anything v := fun s hs hF =>
  Hint.holds_of_meets (hv s hs hF)

theorem Gives.mono (hv : F.Gives h v) (hFG : ∀ e ∈ F, e ∈ G) : G.Gives h v :=
  fun s hs hG => hv s hs fun e he => hG e (hFG e he)

theorem Gives.append (hv : F.Gives h v) : Gives (F ++ G) h v :=
  hv.mono fun _ he => List.mem_append_left _ he

end Facts

namespace Build

/-- A look at the store, and what it finds. -/
theorem leads_look {x : Look α} {G : α → Facts}
    (hG : ∀ s r, Sound D s → F.Hold s → run x s = .ok r → (G r).Hold s) :
    Leads D F (look x) D G := by
  intro s r t hs hF hx
  have hrun : run x s = .ok r ∧ s.applyMoves (x s).moves = t := Prod.mk.inj hx
  obtain ⟨ht, hst⟩ := hs.applyMoves (x s).moves
  rw [hrun.2] at ht hst
  exact ⟨ht, (hG s r hs hF hrun.1).extends hst, hst⟩

/-- A look of which nothing needs to be known. -/
theorem leads_glance (x : Look α) : Leads D F (look x) D fun _ => [] :=
  leads_look fun _ _ _ _ _ _ he => absurd he List.not_mem_nil

/-- An answer, and what is known of it. -/
theorem leads_return {r : α} {G : α → Facts} (hG : ∀ e ∈ G r, F.Gives e.1 e.2) :
    Leads D F (pure r) D G := by
  intro s r' t hs hF hx
  cases hx
  exact ⟨hs, fun e he => hG e he s hs.shared hF, .refl s⟩

theorem leads_tempName : Leads D F tempName D fun name => [(.text, .text name)] := by
  intro s r t hs _ hx
  cases hx
  exact ⟨hs.of_cells rfl, by simp [Facts.Hold, Hint.loose, Hint.meets, Hint.isText],
    Store.extends_of_cells rfl⟩

theorem leads_literalRef : Leads D F literalRef D fun ref => [(.text, .text ref)] := by
  intro s r t hs _ hx
  cases hx
  exact ⟨hs.of_cells rfl, by simp [Facts.Hold, Hint.loose, Hint.meets, Hint.isText],
    Store.extends_of_cells rfl⟩

/-- What is known of a draft after a field was set. -/
def put (f : Field) (h : Hint) (fields : List (Field × Hint)) : List (Field × Hint) :=
  (f, h) :: fields.filter fun e => e.1 ≠ f

theorem mem_map_put {f g : Field} (hfg : g ≠ f) :
    g ∈ (put f h fields).map Prod.fst ↔ g ∈ fields.map Prod.fst := by
  simp only [put, List.map_cons, List.mem_cons, hfg, false_or, List.mem_map, List.mem_filter]
  constructor
  · rintro ⟨e, ⟨he, -⟩, rfl⟩
    exact ⟨e, he, rfl⟩
  · rintro ⟨e, he, rfl⟩
    exact ⟨e, ⟨he, decide_eq_true hfg⟩, rfl⟩

theorem extends_setField (v : Value) (hf : f ≠ .nodes) :
    s.Extends (s.updateNode a fun n => n.set f v) := by
  refine Store.extends_updateNode a (fun _ => rfl) fun n w hw => ?_
  rw [Node.get?_set, if_neg hf.symm, hw]

/-- What a draft holds after a field was set. -/
theorem typed_put {n m : Node} (hs : Sound (D.start a fields) s) (hn : s.node? a = some n)
    (hv : h.loose.meets s v = true) (hf : m.get? f = some v)
    (hm : ∀ g, g ≠ f → g ≠ .position → m.get? g = n.get? g) :
    ∀ e ∈ (D.start a (put f h fields)).promised a n.form,
      ∃ w, m.get? e.1 = some w ∧ e.2.loose.meets s w = true := by
  intro e he
  rw [Drafts.promised_start, List.mem_filter] at he
  obtain ⟨he, hcursor⟩ := he
  rcases List.mem_cons.mp he with rfl | he
  · exact ⟨v, hf, hv⟩
  · obtain ⟨he, hne⟩ := List.mem_filter.mp he
    have hold : e ∈ (D.start a fields).promised a n.form := by
      rw [Drafts.promised_start, List.mem_filter]
      exact ⟨he, hcursor⟩
    obtain ⟨w, hw, hmeets⟩ := hs.typed a n hn e hold
    exact ⟨w, (hm e.1 (of_decide_eq_true hne) (of_decide_eq_true hcursor)).trans hw, hmeets⟩

theorem getD_start (D : Drafts) (a : Address) (fields other : List (Field × Hint)) :
    (D.start a fields a).getD other = fields := by
  rw [Drafts.start, Function.update_self, Option.getD_some]

theorem start_start (D : Drafts) (fields' : List (Field × Hint)) (hb : b ≠ a) :
    D.start a fields' b = D.start a fields b := by
  rw [Drafts.start_of_ne _ _ hb, Drafts.start_of_ne _ _ hb]

/-- A field of a draft is set. -/
theorem leads_setField (hf : f ≠ .nodes ∧ f ≠ .ops) (hv : F.Gives h v) :
    Leads (D.start a fields) F (setField a f v) (D.start a (put f h fields)) fun _ => [] := by
  intro s r t hs hF hx
  cases hx
  obtain ⟨ha, hbody⟩ := hs.draft
  have hmeets := hv s hs.shared hF
  refine ⟨hs.setField (fun b hb => start_start D _ hb) ha hbody hf (Hint.holds_of_meets hmeets)
    (fun n hn => ?_) fun n g hn hg hnone => ?_, by simp [Facts.Hold],
    extends_setField v hf.1⟩
  · refine typed_put hs hn hmeets ?_ fun g hg _ => ?_
    · rw [Node.get?_set, if_pos rfl]
    · rw [Node.get?_set, if_neg hg]
  · rw [getD_start] at hnone
    have hne : g ≠ f := by
      rintro rfl
      exact hnone (List.mem_cons_self ..)
    rw [Node.get?_set, if_neg hne]
    refine hs.lacking a n g hn hg fun hmem => hnone ?_
    rw [getD_start] at hmem
    exact (mem_map_put hne).mpr hmem

end Build

/-! ## Hints that say less -/

namespace Hint

/-- Whether each value that is as one hint says is as another one says, as far as that
can be seen from the hints. -/
def implies (h : Hint) : Hint → Bool
  | .node g => match h with
    | .exactly f | .node f => f.isA g
    | _ => false
  | .either g k => h = .either g k || h.implies g || h.implies k
  | k => h = k

theorem meets_of_implies {h k : Hint} (hk : h.implies k = true) (hv : h.loose.meets s v = true) :
    k.loose.meets s v = true := by
  induction k with
  | either g k ihg ihk =>
    simp only [implies, Bool.or_eq_true, decide_eq_true_eq] at hk
    simp only [loose, meets, Bool.or_eq_true]
    rcases hk with (rfl | hg) | hk
    · simpa only [loose, meets, Bool.or_eq_true] using hv
    · exact .inl (ihg hg)
    · exact .inr (ihk hk)
  | node g =>
    cases h with
    | exactly f =>
      exact Store.isForm_iff.mpr ⟨f, of_decide_eq_true hv, hk⟩
    | node f =>
      obtain ⟨f', hf', hf⟩ := Store.isForm_iff.mp hv
      exact Store.isForm_iff.mpr ⟨f', hf', Form.isA_trans hf hk⟩
    | _ => exact absurd hk (by simp [implies])
  | _ =>
    obtain rfl := of_decide_eq_true hk
    exact hv

end Hint

/-! ## New cells -/

namespace Build

/-- A new collection of things that are there. -/
theorem leads_new {c : Cell} {G : Address → Facts} (hc : ∀ n, c ≠ .node n)
    (htargets : ∀ b ∈ c.targets, F.Gives .anything (.ref b))
    (hG : ∀ s : Store, Store.initial.Extends (s.push c) → F.Hold (s.push c) →
      (G s.nextAddress).Hold (s.push c)) : Leads D F (new c) D G := by
  intro s r t hs hF hx
  cases hx
  have hext := Store.extends_push s c
  refine ⟨hs.push (fun _ _ => rfl) (fun b hb => ?_) fun n hn => absurd hn (hc n),
    hG s (hs.shared.trans hext) (hF.extends hext), hext⟩
  exact of_decide_eq_true (htargets b hb s hs.shared hF)

/-- Whether the fields that a draft got are all that its form promises, and it has no telling
field besides. -/
def covers (form : Form) (fields : List (Field × Hint)) : Bool :=
  (form.kept.all fun e => fields.any fun d => d.1 = e.1 && d.2.implies e.2) &&
    form.telling.all fun f => f ∉ fields.map Prod.fst || f ∈ form.kept.map Prod.fst

/-- A new node is a draft. -/
theorem startDraft (hs : Sound D s) (form : Form) :
    Sound (D.start s.nextAddress []) (s.push (.node ⟨form, 0, []⟩)) ∧
      (s.push (.node ⟨form, 0, []⟩)).formOf? (.ref s.nextAddress) = some form := by
  constructor
  · refine hs.push (fun b hb => Drafts.start_of_ne D [] hb) (by simp [Cell.targets]) ?_
    intro n hn
    cases hn
    refine ⟨rfl, rfl, fun e he => ?_, fun _ _ _ => rfl⟩
    rw [Drafts.promised_start] at he
    cases he
  · exact Store.formOf?_eq_some.mpr ⟨_, Store.cell?_push_next s _, rfl⟩

/-- A draft that got all that its form promises is finished. -/
theorem finishDraft (hs : Sound D s) (ht : Sound (D.start s.nextAddress fields) t)
    (hcovers : covers form fields = true) (hform : t.formOf? (.ref s.nextAddress) = some form) :
    Sound D t := by
  have hnone : D s.nextAddress = none := hs.fresh _ (le_refl _)
  obtain ⟨ha, hnot⟩ := ht.draft
  rw [covers, Bool.and_eq_true] at hcovers
  have heq : ∀ {k n}, t.cellOf? (.ref s.nextAddress) = some (.node k) →
      t.node? s.nextAddress = some n → k = n := by
    intro k n hk hn
    rw [Store.cellOf?, Store.node?_eq_some.mp hn] at hk
    exact (Cell.node.inj (Option.some.inj hk)).symm
  refine ht.redraft (fun b hb => (Drafts.start_of_ne D fields hb).symm) ha hnot ?_ ?_
  · intro n hn e he
    obtain ⟨k, hk, hkform⟩ := Store.formOf?_eq_some.mp hform
    obtain rfl := heq hk hn
    rw [Drafts.promised, hnone, Option.getD_none, List.mem_filter, hkform] at he
    obtain ⟨hkept, hcursor⟩ := he
    obtain ⟨d, hd, himplies⟩ := List.any_eq_true.mp (List.all_eq_true.mp hcovers.1 e hkept)
    simp only [Bool.and_eq_true, decide_eq_true_eq] at himplies
    have hpromised : d ∈ (D.start s.nextAddress fields).promised s.nextAddress k.form := by
      rw [Drafts.promised_start, List.mem_filter, himplies.1]
      exact ⟨hd, hcursor⟩
    obtain ⟨w, hw, hmeets⟩ := ht.typed _ k hn d hpromised
    exact ⟨w, himplies.1 ▸ hw, Hint.meets_of_implies himplies.2 hmeets⟩
  · intro n f hn hf hnot
    obtain ⟨k, hk, hkform⟩ := Store.formOf?_eq_some.mp hform
    obtain rfl := heq hk hn
    rw [hnone, Option.getD_none, hkform] at hnot
    refine ht.lacking _ k f hn hf ?_
    rw [hkform] at hf
    have hall := List.all_eq_true.mp hcovers.2 f hf
    simp only [hnot, decide_false, Bool.or_false, decide_eq_true_eq] at hall
    rwa [getD_start]

/-- A new node, made in a draft of its own. -/
theorem leads_make {body : Address → Build α} {G : α → Facts} (hcovers : covers form fields = true)
    (hbody : ∀ a, Leads (D.start a []) (F ++ [(.exactly form, .ref a)]) (body a)
      (D.start a fields) G) : Leads D F (new (.node ⟨form, 0, []⟩) >>= body) D G := by
  intro s r t hs hF hx
  obtain ⟨a, u, hnew, hrest⟩ := andThen_eq_ok.mp hx
  cases hnew
  have hext := Store.extends_push s (.node ⟨form, 0, []⟩)
  obtain ⟨hstart, hform⟩ := startDraft hs form
  have hfact : Facts.Hold [(.exactly form, .ref s.nextAddress)] (s.push (.node ⟨form, 0, []⟩)) := by
    exact List.forall_mem_singleton.mpr (decide_eq_true hform)
  obtain ⟨ht, hG, hut⟩ := hbody _ _ r t hstart ((hF.extends hext).append hfact) hrest
  exact ⟨finishDraft hs ht hcovers (hut.forms _ _ hform), hG, hext.trans hut⟩

/-- What a container to which nodes may be added keeps them in. -/
theorem growing_inv (h : Hint.growing.meets s v = true) :
    ∃ b n l xs, v = .ref b ∧ s.node? b = some n ∧ n.form.isA .nodeList = true ∧
      n.get? .nodes = some (.ref l) ∧ l ≠ Shared.classNodes ∧ s.cell? l = some (.list xs) ∧
      ∀ x ∈ xs, s.isForm x .node = true := by
  simp only [Hint.meets, Bool.and_eq_true] at h
  obtain ⟨hform, hlist⟩ := h
  cases v with
  | ref b =>
    obtain ⟨n, hn, hisA⟩ := Store.isForm_ref.mp hform
    have hlistOf : s.listOf? (.ref b) = n.get? .nodes := by
      simp only [Store.listOf?, Store.nodeOf?, hn, Option.bind_some]
    rw [hlistOf] at hlist
    obtain ⟨w, hw, hlist⟩ := (Option.any_eq_true _ _).mp hlist
    simp only [Bool.and_eq_true, decide_eq_true_eq] at hlist
    obtain ⟨l, xs, rfl, hxs, hnodes⟩ := Store.isListOfNodes_iff.mp hlist.2
    exact ⟨b, n, l, xs, rfl, hn, hisA, hw, fun h => hlist.1 (h ▸ rfl), hxs, hnodes⟩
  | _ => exact absurd hform (by simp [Store.isForm, Store.formOf?, Store.nodeOf?])

/-- The container as walks see it. -/
theorem isContainer_of_get? {b l : Address} (hn : s.node? b = some n)
    (hisA : n.form.isA .nodeList = true) (hl : n.get? .nodes = some (.ref l))
    (hxs : s.cell? l = some (.list xs)) : IsContainer s (.ref b) l xs := by
  have hcomputed : ∀ g : Form, g.computed? .nodes = none := fun g => by simp [Form.computed?]
  refine ⟨?_, run_field_of_get? hn (hcomputed _) hl, hxs⟩
  simp only [Store.formOf?, Store.nodeOf?, hn, Option.map_some, Option.any_some, hisA]

/-- What adding a node to a container does, and that it goes well. -/
theorem append_growing {v x : Value} (hs : Sound D s) (hv : Hint.growing.meets s v = true)
    (hx : s.isForm x .node = true) : ∃ t, append v x s = (.ok (), t) ∧ Sound D t ∧ s.Extends t := by
  obtain ⟨b, n, l, xs, rfl, hn, hisA, hl, hne, hxs, -⟩ := growing_inv hv
  refine ⟨_, append_eq (isContainer_of_get? hn hisA hl hxs) x, ?_,
    Store.extends_replace_list hxs (by simpa using hx)⟩
  refine hs.append_list hn hl hxs hx fun hmem => ?_
  -- The other shared cells are nodes.
  have hnode : ∀ c, (Store.initial.formOf? (.ref c)).isSome = true → l ≠ c := by
    rintro c hc rfl
    obtain ⟨f, hf⟩ := Option.isSome_iff_exists.mp hc
    obtain ⟨m, hm, -⟩ := Store.formOf?_eq_some.mp (hs.shared.forms _ f hf)
    rw [Store.cellOf?, hxs] at hm
    cases hm
  simp only [Shared.bodyCells, List.mem_cons, List.not_mem_nil, or_false] at hmem
  rcases hmem with rfl | rfl | rfl
  · exact hnode _ rfl rfl
  · exact hne rfl
  · exact hnode _ rfl rfl

/-- A node is added to a container. -/
theorem leads_append {v x : Value} (hv : F.Gives .growing v) (hx : F.Gives (.node .node) x) :
    Leads D F (append v x) D fun _ => [] := by
  intro s r t hs hF happend
  obtain ⟨u, hu, hsound, hext⟩ :=
    append_growing hs (hv s hs.shared hF) (hx s hs.shared hF)
  rw [hu] at happend
  cases happend
  exact ⟨hsound, by simp [Facts.Hold], hext⟩

end Build

/-! ## Starting a node -/

namespace Store

theorem updateNode_updateNode (s : Store) (a : Address) (f g : Node → Node) :
    (s.updateNode a f).updateNode a g = s.updateNode a fun n => g (f n) := by
  simp only [updateNode]
  cases hn : s.node? a with
  | none => simp only [hn]
  | some n =>
    have hnode : (s.replace a (.node (f n))).node? a = some (f n) := by
      rw [node?_replace_node hn, if_pos rfl]
    simp only [hnode]
    simp only [replace, Array.setIfInBounds_setIfInBounds]

theorem updateNode_self (s : Store) (a : Address) : (s.updateNode a fun n => n) = s := by
  simp only [updateNode]
  cases hn : s.node? a with
  | none => rfl
  | some n =>
    have hcell := node?_eq_some.mp hn
    rw [cell?] at hcell
    simp only [replace]
    congr 1
    ext i hi hi'
    · simp
    · rw [Array.getElem_setIfInBounds hi']
      split
      · next heq =>
        subst heq
        rw [Array.getElem?_eq_getElem hi'] at hcell
        exact (Option.some.inj hcell).symm
      · rfl

end Store

namespace Build

theorem setFields_cons (a : Address) (e : Field × Value) (rest : List (Field × Value)) :
    setFields a (e :: rest) = (setField a e.1 e.2 >>= fun _ => setFields a rest) := by
  funext s
  refine Prod.ext rfl ?_
  exact (Store.updateNode_updateNode s a (fun n => n.set e.1 e.2)
    fun n => rest.foldl (fun n e => n.set e.1 e.2) n).symm

theorem setFields_nil (a : Address) : setFields a [] = pure () := by
  funext s
  exact Prod.ext rfl (Store.updateNode_self s a)

/-- What is known of a draft after some fields were set. -/
def putAll (es fields : List (Field × Hint)) : List (Field × Hint) :=
  es.foldl (fun fields e => put e.1 e.2 fields) fields

/-- Several fields of a draft are set. -/
theorem leads_setFields {values : List (Field × Value)} {hints : List (Field × Hint)}
    (h : List.Forall₂ (fun e d => e.1 = d.1 ∧ (e.1 ≠ .nodes ∧ e.1 ≠ .ops) ∧ F.Gives d.2 e.2)
      values hints) :
    Leads (D.start a fields) F (setFields a values) (D.start a (putAll hints fields))
      fun _ => [] := by
  induction h generalizing fields with
  | nil =>
    rw [setFields_nil]
    exact leads_pure _ (by simp)
  | @cons e d values hints hd _ ih =>
    rw [setFields_cons]
    obtain ⟨heq, hf, hv⟩ := hd
    rw [putAll, List.foldl_cons, ← heq]
    refine (leads_setField hf hv).bind fun _ => ?_
    exact ih.mono (by simp)

/-- What every node has after its start. -/
def baseHints : List (Field × Hint) :=
  [(.kind, .member .kind), (.loc, .node .place), (.ref, .text), (.comment, .text),
   (.parent, .maybe .growing)]

/-- Arguments of which the place and the parent are as they should be. -/
structure Places (F : Facts) (args : Arguments) : Prop where
  loc : F.Gives (.node .place) ((args.lookup .loc).getD (.ref Shared.noPlace))
  parent : F.Gives (.maybe .growing) (args.get .parent)

theorem Places.append {G : Facts} (h : Places F args) : Places (F ++ G) args :=
  ⟨h.loc.append, h.parent.append⟩

/-- No place and no parent. -/
theorem places_nil : Places F [] :=
  ⟨Facts.gives_shared rfl, Facts.gives_shared rfl⟩

/-- A node is started. -/
theorem leads_startNode (hargs : Places F args) (ha : F.Gives (.node .node) (.ref a)) :
    Leads (D.start a fields) F (startNode a args) (D.start a (putAll baseHints fields))
      fun _ => [] := by
  have hbase : Leads (D.start a fields) F (setFields a (Shared.baseFields
      ((args.lookup .loc).getD (.ref Shared.noPlace)) (args.get .parent)))
      (D.start a (putAll baseHints fields)) fun _ => [] := by
    refine leads_setFields (.cons ⟨rfl, by decide, fun _ _ _ => rfl⟩ ?_)
    refine .cons ⟨rfl, by simp, hargs.loc⟩ (.cons ⟨rfl, by decide, fun _ _ _ => rfl⟩ ?_)
    refine .cons ⟨rfl, by decide, fun _ _ _ => rfl⟩ ?_
    exact .cons ⟨rfl, by simp, hargs.parent⟩ .nil
  refine hbase.bind fun _ => ?_
  by_cases hnone : args.get .parent = .none
  · rw [if_neg (not_not_intro hnone)]
    exact leads_pure _ (by simp)
  · rw [if_pos hnone]
    refine leads_append (fun s hs hF => ?_) ha.append
    have hmeets := hargs.parent.append s hs hF
    simp only [Hint.maybe, Hint.loose, Hint.meets, Bool.or_eq_true, decide_eq_true_eq, hnone,
      false_or] at hmeets
    exact hmeets

/-- A fact, and what follows from it. -/
theorem gives_of_implies {h k : Hint} (hmem : (h, v) ∈ F) (himplies : h.implies k = true) :
    F.Gives k v := fun _ _ hF =>
  Hint.meets_of_implies himplies (hF _ hmem)

/-- What is known afterwards, said with other hints. -/
theorem Leads.weaken {x : Build α} {G H : α → Facts} (h : Leads D F x D' G)
    (hGH : ∀ r, ∀ e ∈ H r, ∃ k : Hint, (k, e.2) ∈ G r ∧ k.implies e.1 = true) :
    Leads D F x D' H := by
  intro s r t hs hF hx
  obtain ⟨ht, hG, hext⟩ := h s r t hs hF hx
  refine ⟨ht, fun e he => ?_, hext⟩
  obtain ⟨k, hk, himplies⟩ := hGH r e he
  exact Hint.meets_of_implies himplies (hG _ hk)

theorem gives_node_of_mem {form f : Form} (h : (.exactly form, v) ∈ F) (hf : form.isA f = true) :
    F.Gives (.node f) v :=
  gives_of_implies h hf

/-- What the shared form of nodes makes of a form that needs nothing else. -/
theorem leads_newBare (hform : form.isA .node = true)
    (hcovers : covers form (putAll baseHints []) = true) :
    Leads D F (newBare form) D fun a => [(.exactly form, .ref a)] := by
  refine leads_make hcovers fun a => ?_
  have ha : Facts.Gives (F ++ [(.exactly form, .ref a)]) (.node .node) (.ref a) :=
    gives_node_of_mem (List.mem_append_right _ (List.mem_singleton_self _)) hform
  refine (leads_startNode places_nil ha).bind fun _ => ?_
  exact leads_pure a (by simp)

/-- What a node has after its start as a data type. -/
def typeHints : List (Field × Hint) :=
  putAll [(.name, .text), (.type, .exactly .exprType)] (putAll baseHints [])

/-- A node is started as a data type. -/
theorem leads_startType (hargs : Places F args) (ha : F.Gives (.node .node) (.ref a)) :
    Leads (D.start a []) F (startType a args) (D.start a typeHints) fun _ => [] := by
  refine (leads_startNode hargs ha).bind fun _ => ?_
  refine leads_tempName.bind fun name => ?_
  refine (leads_setField (h := .text) (by decide) (Facts.gives_of_mem (by simp))).bind fun _ => ?_
  refine (leads_newBare rfl rfl).bind fun b => ?_
  exact leads_setField (by decide) (Facts.gives_of_mem (by simp))

/-- What a node has after its start, as a data type or not. -/
def formHints (form : Form) : List (Field × Hint) :=
  if form.isA .dataType then typeHints else putAll baseHints []

theorem leads_startForm (hargs : Places F args) (ha : F.Gives (.node .node) (.ref a)) :
    Leads (D.start a []) F (startForm a form args) (D.start a (formHints form)) fun _ => [] := by
  rw [startForm, formHints]
  split
  · exact leads_startType hargs ha
  · exact leads_startNode hargs ha

end Build

/-! ## Lists of their own -/

namespace Store

/-- No node refers to an address. -/
def IsUnused (s : Store) (l : Address) : Prop :=
  ∀ b n f, s.node? b = some n → n.get? f ≠ some (.ref l)

end Store

namespace Sound

/-- Nothing refers to what is not there. -/
theorem isUnused_next (hs : Sound D s) : s.IsUnused s.nextAddress := fun _ _ _ hn hw =>
  absurd (of_decide_eq_true (hs.holds_get? hn hw)) (Nat.lt_irrefl _)

/-- A draft gets a list that no node has: the empty one of a container, or the signs of a
chain of comparisons. -/
theorem setList (hs : Sound (D.start a fields) s) {l : Address}
    (hf : f = .nodes ∧ .nodes ∉ fields.map Prod.fst ∨ f = .ops) (hl : s.cell? l = some (.list xs))
    (hxs : xs.all Hint.isText = true) (hunused : s.IsUnused l)
    (hh : h.loose.meets s (.ref l) = true) :
    Sound (D.start a (Build.put f h fields)) (s.updateNode a fun n => n.set f (.ref l)) ∧
      s.Extends (s.updateNode a fun n => n.set f (.ref l)) := by
  obtain ⟨ha, hbody⟩ := hs.draft
  rw [Store.updateNode]
  cases hn : s.node? a with
  | none =>
    refine ⟨hs.redraft (fun b hb => Build.start_start D _ hb) ha hbody ?_ ?_, .refl s⟩
    · intro n hn'
      rw [hn] at hn'
      cases hn'
    · intro n f hn'
      rw [hn] at hn'
      cases hn'
  | some n =>
    have hlacking := fun g hg (hnone : g ∉ fields.map Prod.fst) =>
      hs.lacking a n g hn hg (by rwa [Build.getD_start])
    have hget : ∀ g, (n.set f (.ref l)).get? g =
        if g = f then some (.ref l) else n.get? g := Node.get?_set n f _
    have hne : Field.nodes ≠ .ops := by decide
    have hlist : ∀ w, n.get? .nodes = some w → (n.set f (.ref l)).get? .nodes = some w := by
      intro w hw
      rcases hf with ⟨rfl, hnone⟩ | rfl
      · rw [hlacking .nodes n.form.nodes_mem_telling hnone] at hw
        cases hw
      · rw [hget, if_neg hne, hw]
    refine ⟨?_, Store.extends_replace_node hn rfl hlist⟩
    refine hs.update hn rfl hlist (fun b hb => Build.start_start D _ hb) ?_ ?_ ?_ ?_ ?_ ?_
      (fun hmem => absurd hmem hbody) ?_
    · refine Build.typed_put hs hn hh (by rw [hget, if_pos rfl]) fun g hg _ => ?_
      rw [hget, if_neg hg]
    · intro b hb
      rcases Cell.mem_targets_set hb with hb | hb
      · exact hs.closed a _ (Store.node?_eq_some.mp hn) b hb
      · cases hb
        exact (Array.getElem?_eq_some_iff.mp hl).1
    · intro w hw
      rw [hget] at hw
      by_cases hops : Field.ops = f
      · rw [if_pos hops] at hw
        cases hw
        exact ⟨xs, hl, hxs⟩
      · rw [if_neg hops] at hw
        exact hs.signs a n w hn hw
    · intro w hw hw'
      rw [hget] at hw hw'
      rcases hf with ⟨rfl, -⟩ | rfl
      · rw [if_pos rfl] at hw
        rw [if_neg hne.symm, ← hw] at hw'
        exact hunused a n _ hn hw'
      · rw [if_neg hne] at hw
        rw [if_pos rfl, ← hw] at hw'
        exact hunused a n _ hn hw'.symm
    · intro b k w _ hk hw hw'
      rw [hget] at hw
      split at hw
      · exact hunused b k _ hk (hw'.trans hw.symm)
      · exact hs.apart a b n k w hn hk hw hw'
    · intro b k w _ hk hw hw'
      rw [hget] at hw'
      split at hw'
      · exact hunused b k _ hk (hw.trans hw'.symm)
      · exact hs.apart b a k n w hk hn hw hw'
    · intro g hg hnone
      rw [Build.getD_start] at hnone
      have hgf : g ≠ f := by
        rintro rfl
        exact hnone (List.mem_cons_self ..)
      rw [hget, if_neg hgf]
      exact hlacking g hg fun hmem => hnone ((Build.mem_map_put hgf).mpr hmem)

end Sound

namespace Store

variable {l : Address}

/-- Other fields for a node change no collection. -/
theorem cell?_updateNode {c : Cell} (h : s.cell? l = some c) (hc : ∀ n, c ≠ .node n)
    (g : Node → Node) : (s.updateNode a g).cell? l = some c := by
  rw [updateNode]
  cases hn : s.node? a with
  | none => exact h
  | some n => exact cellOf?_replace_node hn (v := .ref l) h hc

theorem IsUnused.push_list (h : s.IsUnused l) (xs : List Value) :
    (s.push (.list xs)).IsUnused l := by
  intro b n f hn
  rw [node?_eq_some, cell?_push] at hn
  split at hn
  · cases hn
  · exact h b n f (node?_eq_some.mpr hn)

theorem IsUnused.setField (h : s.IsUnused l) (hv : v ≠ .ref l) :
    (s.updateNode a fun n => n.set f v).IsUnused l := by
  intro b n g hn
  rw [updateNode] at hn
  cases ha : s.node? a with
  | none =>
    rw [ha] at hn
    exact h b n g hn
  | some m =>
    rw [ha] at hn
    simp only [node?_replace_node ha] at hn
    split at hn
    · cases hn
      rw [Node.get?_set]
      split
      · exact fun heq => hv (Option.some.inj heq)
      · exact h a m g ha
    · exact h b n g hn

end Store

namespace Build

/-- What a container has after its start. -/
def containerHints : List (Field × Hint) :=
  putAll [(.name, .text), (.nodes, .nodes), (.position, .int)] (putAll baseHints [])

/-- A draft gets the list of a container. -/
theorem growing_setList {l : Address} (hs : Sound (D.start a fields) s)
    (hfields : .nodes ∉ fields.map Prod.fst) (hform : s.formOf? (.ref a) = some form)
    (hisA : form.isA .nodeList = true) (hl : s.cell? l = some (.list [])) (hunused : s.IsUnused l)
    (hne : l ≠ Shared.classNodes) :
    ∃ t, t = (s.updateNode a fun n => n.set .nodes (.ref l)) ∧ s.Extends t ∧
      Sound (D.start a (put .nodes .nodes fields)) t ∧ Hint.growing.meets t (.ref a) = true := by
  have hnodes : Hint.nodes.meets s (.ref l) = true := by
    rw [Hint.meets, Store.isListOfNodes, Store.cellOf?, hl]
    rfl
  obtain ⟨hsound, hext⟩ :=
    hs.setList (f := .nodes) (h := .nodes) (.inl ⟨rfl, hfields⟩) hl rfl hunused hnodes
  refine ⟨_, rfl, hext, hsound, ?_⟩
  obtain ⟨n, hn, -⟩ := Store.formOf?_eq_some.mp hform
  have hlist : (s.updateNode a fun n => n.set .nodes (.ref l)).listOf? (.ref a) =
      some (.ref l) := by
    refine Store.listOf?_eq_some.mpr ⟨_, Store.cell?_updateNode_self hn _, ?_⟩
    rw [Node.get?_set, if_pos rfl]
  simp only [Hint.meets, Bool.and_eq_true, hlist, Option.any_some, decide_eq_true_eq]
  refine ⟨Store.isForm_iff.mpr ⟨form, hext.forms _ _ hform, hisA⟩, ?_, hext.isListOfNodes hnodes⟩
  exact fun heq => hne (Value.ref.inj heq)

/-- A node is started as a container. -/
theorem leads_startContainer {name : Value} (hargs : Places F args)
    (ha : (.exactly form, .ref a) ∈ F) (hform : form.isA .nodeList = true)
    (hname : F.Gives .text name) :
    Leads (D.start a []) F (startContainer a args name) (D.start a containerHints)
      fun _ => [(.growing, .ref a)] := by
  have hnode : F.Gives (.node .node) (.ref a) :=
    gives_node_of_mem ha (Form.isA_trans hform (by decide))
  refine (leads_startNode hargs hnode).bind fun _ => ?_
  intro s r t hs hF hx
  have ht : (((s.push (.list [])).updateNode a fun n => n.set .name name).updateNode a
      fun n => n.set .nodes (.ref s.nextAddress)).updateNode a
      (fun n => n.set .position (.int 0)) = t := by
    rw [Store.updateNode_updateNode, Store.updateNode_updateNode]
    exact (Prod.mk.inj hx).2
  -- A list that nobody has.
  have hext₁ := Store.extends_push s (.list [])
  have hs₁ : Sound (D.start a (putAll baseHints [])) (s.push (.list [])) :=
    hs.push (fun _ _ => rfl) (by simp [Cell.targets]) fun n hn => by cases hn
  -- The name.
  obtain ⟨hs₂, -, hext₂⟩ := leads_setField (f := .name) (by decide) hname.append _ () _ hs₁
    (hF.extends hext₁) rfl
  have htext := hname.append s hs.shared hF
  have hunused := (hs.isUnused_next.push_list []).setField (a := a) (f := .name) (v := name) (by
    rintro rfl
    cases htext)
  have hl := Store.cell?_updateNode (a := a) (Store.cell?_push_next s (.list [])) (by simp)
    fun n => n.set .name name
  -- The list becomes that of the container.
  have hexact := of_decide_eq_true ((hF.extends (hext₁.trans hext₂)) _ (List.mem_append_left _ ha))
  have hne : s.nextAddress ≠ Shared.classNodes :=
    Nat.ne_of_gt (lt_of_lt_of_le (by decide) hs.shared.size)
  obtain ⟨s₃, hs₃, hext₃, hsound₃, hgrowing⟩ :=
    growing_setList hs₂ (by decide) hexact hform hl hunused hne
  -- The cursor.
  obtain ⟨hs₄, -, hext₄⟩ := leads_setField (f := .position) (h := .int) (by decide)
    (fun _ _ _ => rfl) _ () t hsound₃ (hF.extends (hext₁.trans (hext₂.trans hext₃)))
    (Prod.ext rfl (hs₃ ▸ ht))
  refine ⟨hs₄, ?_, hext₁.trans (hext₂.trans (hext₃.trans hext₄))⟩
  exact List.forall_mem_singleton.mpr (Hint.meets_extends (h := .growing) hext₄ hgrowing)

end Build

end ProgramTree
