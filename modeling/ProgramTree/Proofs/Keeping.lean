/-
How arguments get into fields.

Most arguments are kept as they are. Those for which a container is made go well whenever
they are as their hint says: what has items can be walked over, and the items are nodes, so
each of them can be added to the new container. This matters, because some constructors
catch what goes wrong there and leave the field away.

`leads_keepAll` says what all arguments of a constructor leave in the draft, as a
computation on the table of hints.
-/
import ProgramTree.Proofs.Filling

namespace ProgramTree.Build

open Look

variable {α β : Type} {D : Drafts} {F : Facts} {a : Address} {s : Store} {v : Value}
  {xs : List Value} {form : Form} {fields : List (Field × Hint)}

/-! ## Containers with items -/

/-- Nodes are added to a container one after the other, and all of them can be. -/
theorem forM_append (hs : Sound D s) (hv : Hint.growing.meets s v = true)
    (hxs : ∀ x ∈ xs, s.isForm x .node = true) :
    ∃ t, (xs.forM fun x => append v x) s = (.ok (), t) ∧ Sound D t ∧ s.Extends t := by
  induction xs generalizing s with
  | nil => exact ⟨s, rfl, hs, .refl s⟩
  | cons x xs ih =>
    obtain ⟨u, hu, hsound, hext⟩ := append_growing hs hv (hxs x (List.mem_cons_self ..))
    obtain ⟨t, ht, hsound', hext'⟩ := ih hsound (Hint.meets_extends (h := .growing) hext hv)
      fun y hy => hext.isForm (hxs y (List.mem_cons_of_mem _ hy))
    refine ⟨t, ?_, hsound', hext.trans hext'⟩
    exact andThen_eq_ok.mpr ⟨(), u, hu, ht⟩

theorem leads_forM_append (hv : F.Gives .growing v) (hxs : ∀ x ∈ xs, F.Gives (.node .node) x) :
    Leads D F (xs.forM fun x => append v x) D fun _ => [] := by
  intro s r t hs hF hx
  obtain ⟨u, hu, hsound, hext⟩ := forM_append hs (hv s hs.shared hF) fun x hx =>
    hxs x hx s hs.shared hF
  rw [hu] at hx
  cases hx
  exact ⟨hsound, by simp [Facts.Hold], hext⟩

/-- What a container that is made for some nodes has. -/
def madeHints (sort : Option Form) : List (Field × Hint) :=
  match sort with
  | some _ => put .itemSort .text containerHints
  | none => containerHints

/-- Gives a container its sort. -/
def giveSort (a : Address) (sort : Option Form) : Build Unit :=
  match sort with
  | some form => setField a .itemSort (.text form.path)
  | none => pure ()

theorem leads_giveSort (sort : Option Form) :
    Leads (D.start a containerHints) F (giveSort a sort) (D.start a (madeHints sort))
      fun _ => [] := by
  cases sort with
  | none => exact leads_pure _ (by simp)
  | some form => exact leads_setField (by decide) fun _ _ _ => rfl

theorem newContainer_eq (sort : Option Form) (xs : List Value) :
    newContainer sort xs = (do
      let a ← new (.node ⟨.nodeList, 0, []⟩)
      startContainer a [] (.text "entry")
      giveSort a sort
      xs.forM fun v => append (.ref a) v
      return .ref a) := by
  cases sort with
  | none => rfl
  | some form => rfl

theorem leads_newContainer {sort : Option Form} (hxs : ∀ x ∈ xs, F.Gives (.node .node) x) :
    Leads D F (newContainer sort xs) D fun v => [(.node .nodeList, v)] := by
  have hcovers : covers .nodeList (madeHints sort) = true := by
    cases sort with
    | none => decide
    | some form => rfl
  rw [newContainer_eq]
  refine leads_make hcovers fun a => ?_
  have ha : (Hint.exactly .nodeList, Value.ref a) ∈ F ++ [(.exactly .nodeList, .ref a)] :=
    List.mem_append_right _ (List.mem_singleton_self _)
  refine (leads_startContainer places_nil ha (by decide) fun _ _ _ => rfl).bind fun _ => ?_
  refine (leads_giveSort sort).bind fun _ => ?_
  refine (leads_forM_append (Facts.gives_of_mem (by simp)) fun x hx => ?_).bind fun _ => ?_
  · exact (hxs x hx).append.append.append
  · refine leads_return fun e he => ?_
    obtain rfl := List.mem_singleton.mp he
    exact (gives_node_of_mem ha (by decide)).append.append.append

/-- A new container for nodes is always made. -/
theorem newContainer_nodes (sort : Option Form) (hs : Sound D s)
    (hxs : ∀ x ∈ xs, s.isForm x .node = true) : ∃ v t, newContainer sort xs s = (.ok v, t) := by
  obtain ⟨hs₁, hform⟩ := startDraft hs .nodeList
  have hext₁ := Store.extends_push s (.node ⟨.nodeList, 0, []⟩)
  have hF₁ : Facts.Hold [(.exactly .nodeList, .ref s.nextAddress)]
      (s.push (.node ⟨.nodeList, 0, []⟩)) := by
    exact List.forall_mem_singleton.mpr (decide_eq_true hform)
  obtain ⟨s₂, hstart⟩ : ∃ t, startContainer s.nextAddress [] (.text "entry")
      (s.push (.node ⟨.nodeList, 0, []⟩)) = (.ok (), t) := ⟨_, rfl⟩
  obtain ⟨hs₂, hgrowing, hext₂⟩ := leads_startContainer places_nil (List.mem_singleton_self _)
    (by decide) (fun _ _ _ => rfl) _ () s₂ hs₁ hF₁ hstart
  obtain ⟨s₃, hsort⟩ : ∃ t, giveSort s.nextAddress sort s₂ = (.ok (), t) := by
    cases sort with
    | none => exact ⟨_, rfl⟩
    | some form => exact ⟨_, rfl⟩
  obtain ⟨hs₃, -, hext₃⟩ := leads_giveSort sort _ () s₃ hs₂ (F := []) (by simp [Facts.Hold]) hsort
  have hext := hext₁.trans (hext₂.trans hext₃)
  obtain ⟨t, ht, -, -⟩ := forM_append hs₃ (hgrowing.extends hext₃ _ (List.mem_singleton_self _))
    fun x hx => hext.isForm (hxs x hx)
  refine ⟨.ref s.nextAddress, t, ?_⟩
  rw [newContainer_eq]
  refine andThen_eq_ok.mpr ⟨_, _, rfl, andThen_eq_ok.mpr ⟨(), s₂, hstart, ?_⟩⟩
  refine andThen_eq_ok.mpr ⟨(), s₃, hsort, andThen_eq_ok.mpr ⟨(), t, ht, rfl⟩⟩

/-! ## What is gathered -/

/-- What a walk meets in something that has items: nodes. -/
theorem items_inv (hv : (Hint.items .node).meets s v = true)
    (hlist : s.isForm v .nodeList = false) :
    ∃ xs, Contains s v xs ∧ ∀ x ∈ xs, s.isForm x .node = true := by
  rw [Hint.meets, hlist, Bool.false_or] at hv
  obtain ⟨c, xs, hc, hxs, hall⟩ := Store.allItems_iff.mp hv
  cases v with
  | ref b => exact ⟨xs, .plain hc hxs, fun x hx => (Bool.and_eq_true_iff.mp (hall x hx)).1⟩
  | _ => cases hc

/-- A look with an outcome, and the store after it. -/
theorem look_of_run {x : Look α} {r : α} (hs : Sound D s) (h : run x s = .ok r) :
    ∃ t, look x s = (.ok r, t) ∧ Sound D t ∧ s.Extends t := by
  obtain ⟨ht, hext⟩ := hs.applyMoves (x s).moves
  exact ⟨_, Prod.ext h rfl, ht, hext⟩

/-- What has items is gathered into a container. -/
theorem gather_items (f : Field) (hs : Sound D s) (hv : (Hint.items .node).meets s v = true) :
    ∃ w t, gather f v s = (.ok w, t) ∧ Sound D t ∧ t.isForm w .nodeList = true ∧ s.Extends t := by
  have hisA : look (isA v .nodeList) s = (.ok (s.isForm v .nodeList), s) := by
    rw [(still_isA v _).look_eq, run_isA]
    rfl
  cases hlist : s.isForm v .nodeList with
  | true =>
    rw [hlist] at hisA
    exact ⟨v, s, andThen_of_eq hisA, hs, hlist, .refl s⟩
  | false =>
    rw [hlist] at hisA
    obtain ⟨xs, hxs, hnodes⟩ := items_inv hv hlist
    have hrun : run (items v) s = .ok xs := by
      rw [items, hxs.run_forEach_ok (g := id) fun _ _ => rfl, List.map_id]
    obtain ⟨u, hu, hsu, hext⟩ := look_of_run hs hrun
    have hnodes' : ∀ x ∈ xs, u.isForm x .node = true := fun x hx => hext.isForm (hnodes x hx)
    obtain ⟨w, t, ht⟩ := newContainer_nodes f.itemForm? hsu hnodes'
    have hfacts : Facts.Hold (xs.map fun x => (.node .node, x)) u := by
      intro e he
      obtain ⟨x, hx, rfl⟩ := List.mem_map.mp he
      exact hnodes' x hx
    obtain ⟨hst, hfact, hext'⟩ := leads_newContainer (fun x hx =>
      Facts.gives_of_mem (List.mem_map_of_mem hx)) u w t hsu hfacts ht
    refine ⟨w, t, ?_, hst, hfact _ (List.mem_singleton_self _), hext.trans hext'⟩
    refine (andThen_of_eq hisA).trans ?_
    exact (andThen_of_eq hu).trans ht

theorem leads_gather {f : Field} (hv : F.Gives (.items .node) v) :
    Leads D F (gather f v) D fun w => [(.node .nodeList, w)] := by
  intro s r t hs hF hx
  obtain ⟨w, u, hu, hsound, hform, hext⟩ := gather_items f hs (hv s hs.shared hF)
  rw [hu] at hx
  cases hx
  refine ⟨hsound, fun e he => ?_, hext⟩
  obtain rfl := List.mem_singleton.mp he
  exact hform

/-! ## Keeping -/

/-- Whether an argument of which a hint holds can be kept in a way. -/
def suits (k : Keeping) (h : Hint) : Bool :=
  match k with
  | .plain | .elsewhere => true
  | .gathered | .gatheredOrAway => h.loose = .items .node
  | .gatheredIfTrue | .gatheredOrNew => h.loose = .maybe (.items .node)

/-- What may be missing and is not. -/
theorem gives_of_maybe {h : Hint} (hv : F.Gives (.maybe h) v) (hne : v ≠ .none) : F.Gives h v := by
  intro s hs hF
  have hmeets := hv s hs hF
  simp only [Hint.maybe, Hint.loose, Hint.meets, Bool.or_eq_true, decide_eq_true_eq, hne,
    false_or] at hmeets
  exact hmeets

theorem rescue_of_ok {s t : Store} {x : Build α} {r : α} (h : x s = (.ok r, t))
    (g : Fault → Build α) : rescue x g s = (.ok r, t) := by
  rw [rescue, h]

/-- What goes well needs no rescue. -/
theorem Leads.rescue {x : Build α} {D' : Drafts} {G : α → Facts} (h : Leads D F x D' G)
    (hruns : ∀ s, Sound D s → F.Hold s → ∃ r t, x s = (.ok r, t)) (g : Fault → Build α) :
    Leads D F (rescue x g) D' G := by
  intro s r t hs hF hx
  obtain ⟨r', t', hok⟩ := hruns s hs hF
  rw [rescue_of_ok hok] at hx
  exact h s r t hs hF (hok.trans hx)

/-- One argument is kept. -/
theorem leads_keep {p : Param} {h k : Hint} (hv : F.Gives h v) (hsuits : suits p.keeping h = true)
    (hk : Form.left p.keeping h = some k) (hf : p.field ≠ .nodes ∧ p.field ≠ .ops) :
    Leads (D.start a fields) F (keep a p v) (D.start a (put p.field k fields)) fun _ => [] := by
  rw [keep]
  cases hkeep : p.keeping with
  | plain =>
    rw [hkeep] at hk
    cases hk
    exact leads_setField hf hv.loose
  | gathered =>
    rw [hkeep] at hk hsuits
    cases hk
    have hitems : F.Gives (.items .node) v := of_decide_eq_true hsuits ▸ hv.loose
    refine (leads_gather hitems).bind fun w => ?_
    exact leads_setField hf (Facts.gives_of_mem (by simp))
  | gatheredIfTrue =>
    rw [hkeep] at hk hsuits
    cases hk
    have hmaybe : F.Gives (.maybe (.items .node)) v := of_decide_eq_true hsuits ▸ hv.loose
    by_cases hne : v = .none
    · subst hne
      exact leads_setField hf fun _ _ _ => rfl
    · refine (leads_glance _).bind fun b => ?_
      cases b with
      | true =>
        refine (leads_gather (gives_of_maybe hmaybe hne).append).bind fun w => ?_
        exact leads_setField hf (gives_of_implies (h := .node .nodeList) (by simp) (by decide))
      | false => exact leads_setField hf fun _ _ _ => rfl
  | gatheredOrNew =>
    rw [hkeep] at hk hsuits
    cases hk
    have hmaybe : F.Gives (.maybe (.items .node)) v := of_decide_eq_true hsuits ▸ hv.loose
    have hrescue : Leads (D.start a fields) F
        (rescue (gather p.field v) fun _ => newContainer (some .expr) []) (D.start a fields)
        fun w => [(.node .nodeList, w)] := by
      by_cases hne : v = .none
      · subst hne
        have heq : (rescue (gather p.field .none) fun _ => newContainer (some .expr) []) =
            newContainer (some .expr) [] := rfl
        rw [heq]
        exact leads_newContainer fun _ hx => absurd hx List.not_mem_nil
      · have hitems := gives_of_maybe hmaybe hne
        refine (leads_gather hitems).rescue (fun s hs hF => ?_) _
        obtain ⟨w, t, ht, -⟩ := gather_items p.field hs (hitems s hs.shared hF)
        exact ⟨w, t, ht⟩
    refine hrescue.bind fun w => ?_
    exact leads_setField hf (Facts.gives_of_mem (by simp))
  | gatheredOrAway =>
    rw [hkeep] at hk hsuits
    cases hk
    have hitems : F.Gives (.items .node) v := of_decide_eq_true hsuits ▸ hv.loose
    refine Leads.rescue ?_ (fun s hs hF => ?_) _
    · refine (leads_gather hitems).bind fun w => ?_
      exact leads_setField hf (Facts.gives_of_mem (by simp))
    · obtain ⟨w, t, ht, -⟩ := gather_items p.field hs (hitems s hs.shared hF)
      exact ⟨(), _, andThen_eq_ok.mpr ⟨w, t, ht, rfl⟩⟩
  | elsewhere =>
    rw [hkeep] at hk
    cases hk

/-- What is known of a draft after an argument was kept. -/
def keepHint (form : Form) (fields : List (Field × Hint)) (p : Param) : List (Field × Hint) :=
  match (form.expects p.field).bind (Form.left p.keeping) with
  | some h => put p.field h fields
  | none => fields

/-- The arguments of which something is known can be kept. -/
theorem suits_params (form : Form) : form.fillOrder.all (fun p => p.keeping = .elsewhere ∨
    (p.field ≠ .nodes ∧ p.field ≠ .ops ∧ p.field ≠ .loc) ∧ (form.expects p.field).any fun h =>
      suits p.keeping h ∧ (Form.left p.keeping h).isSome) := by
  cases form <;> decide

/-- Arguments that are as the constructor of a form expects them. -/
structure Fits (F : Facts) (form : Form) (args : Arguments) : Prop extends Places F args where
  expected : ∀ p ∈ form.signature.2, p.field ≠ .loc → ∀ h, form.expects p.field = some h →
    F.Gives h (args.get p.field)
  others : ∀ f, (∀ p ∈ form.signature.2, p.field ≠ f) → args.get f = .none

theorem Fits.append {args : Arguments} {G : Facts} (h : Fits F form args) :
    Fits (F ++ G) form args :=
  ⟨h.toPlaces.append, fun p hp hloc k hk => (h.expected p hp hloc k hk).append, h.others⟩

/-- Only parameters are filled. -/
theorem mem_signature {p : Param} (hp : p ∈ form.fillOrder) : p ∈ form.signature.2 := by
  simp only [Form.fillOrder] at hp
  split at hp
  · obtain ⟨g, -, hg⟩ := List.mem_filterMap.mp hp
    exact List.mem_of_find?_eq_some hg
  · exact hp

/-- All arguments are kept. The induction is on the parameters still to come. -/
theorem leads_keepAll {args : Arguments} (hargs : Fits F form args) :
    Leads (D.start a fields) F (keepAll a form args)
      (D.start a (form.fillOrder.foldl (keepHint form) fields)) fun _ => [] := by
  have hparams : ∀ p ∈ form.fillOrder, p.keeping = .elsewhere ∨
      (p.field ≠ .nodes ∧ p.field ≠ .ops ∧ p.field ≠ .loc) ∧ ∃ h k, form.expects p.field = some h ∧
        suits p.keeping h = true ∧ Form.left p.keeping h = some k := by
    intro p hp
    have hall := of_decide_eq_true (List.all_eq_true.mp (suits_params form) p hp)
    refine hall.imp id fun hsome => ⟨hsome.1, ?_⟩
    obtain ⟨h, hh, hsuits⟩ := (Option.any_eq_true _ _).mp hsome.2
    obtain ⟨hsuits, hleft⟩ := of_decide_eq_true hsuits
    obtain ⟨k, hk⟩ := Option.isSome_iff_exists.mp hleft
    exact ⟨h, k, hh, hsuits, hk⟩
  rw [keepAll]
  generalize hps : form.fillOrder = ps at hparams
  have hmem : ∀ p ∈ ps, p ∈ form.signature.2 := fun p hp => mem_signature (hps ▸ hp)
  clear hps
  induction ps generalizing fields with
  | nil => exact leads_pure _ (by simp)
  | cons p ps ih =>
    have hrest : Leads (D.start a (keepHint form fields p)) F
        (ps.forM fun p => keep a p (args.get p.field))
        (D.start a (ps.foldl (keepHint form) (keepHint form fields p))) fun _ => [] :=
      ih (fun q hq => hparams q (List.mem_cons_of_mem _ hq))
        fun q hq => hmem q (List.mem_cons_of_mem _ hq)
    have hfirst : Leads (D.start a fields) F (keep a p (args.get p.field))
        (D.start a (keepHint form fields p)) fun _ => [] := ?_
    · rw [List.foldl_cons]
      exact hfirst.bind fun _ => hrest.mono (by simp)
    rw [keepHint]
    rcases hparams p (List.mem_cons_self ..) with helse | ⟨hf, h, k, hexpects, hsuits, hk⟩
    · have hnone : (form.expects p.field).bind (Form.left p.keeping) = none := by
        rw [helse]
        cases form.expects p.field with
        | none => rfl
        | some h => rfl
      have hkeep : ∀ v, keep a p v = pure () := fun v => by rw [keep, helse]
      simp only [hnone, hkeep]
      exact leads_pure _ (by simp)
    · rw [hexpects, Option.bind_some, hk]
      exact leads_keep (hargs.expected p (hmem p (List.mem_cons_self ..)) hf.2.2 h hexpects) hsuits
        hk ⟨hf.1, hf.2.1⟩

end ProgramTree.Build
