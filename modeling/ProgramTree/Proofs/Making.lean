/-
What the constructors of literals, operators and containers leave behind.

Most constructors only keep their arguments. The others look at them: a literal that is a
collection takes its type from the types of its items, an operator compares the types of
its operands, a chain of comparisons takes its signs and operands out of what it was
given, a package copies its parts. What such a constructor reads of older nodes is what
their forms promise, because only the node that is being made is a draft.

Some hints are about the items of a list as it was when the constructor was called. A
constructor that adds its node to no parent leaves all older cells alone (`Spares`), so
these items are still the same when it comes to look at them.
-/
import ProgramTree.Proofs.Copies

namespace ProgramTree

open Look

/-! ## Reading finished nodes -/

variable {α β : Type} {D : Drafts} {F : Facts} {a b : Address} {s t : Store} {f : Field} {v : Value}
  {h : Hint} {fields : List (Field × Hint)} {xs : List Value} {form : Form} {args : Arguments}
  {c : Cell}

namespace Sound

variable {n : Node}

/-- A finished node holds what its form promises. -/
theorem get?_of_kept (hs : Sound D s) (hfinished : D b = none) (hn : s.node? b = some n)
    {e : Field × Hint} (he : e ∈ n.form.kept) :
    ∃ w, n.get? e.1 = some w ∧ e.2.meets s w = true := by
  have hstays := of_decide_eq_true (List.all_eq_true.mp (Form.kept_stays n.form) e he)
  have hpromised : e ∈ D.promised b n.form := by
    rw [Drafts.promised, hfinished, Option.getD_none, List.mem_filter]
    exact ⟨he, decide_eq_true hstays.2⟩
  obtain ⟨w, hw, hmeets⟩ := hs.typed b n hn e hpromised
  exact ⟨w, hw, hstays.1 ▸ hmeets⟩

/-- What a field of a finished node reads as. -/
theorem meets_of_field (hs : Sound D s) (hfinished : D b = none) (hn : s.node? b = some n)
    (hkept : (f, h) ∈ n.form.kept) (hc : n.form.computed? f = none) {w : Value}
    (hw : run (field (.ref b) f) s = .ok w) : h.meets s w = true := by
  obtain ⟨v, hv, hmeets⟩ := hs.get?_of_kept hfinished hn hkept
  have hnode : s.nodeOf? (.ref b) = some n := hn
  rw [run_field_of_get? hnode hc hv] at hw
  cases hw
  exact hmeets

end Sound

namespace Build

/-! ## Older cells -/

/-- A build leaves the cells below an address alone. -/
def Spares (a : Address) (x : Build α) : Prop :=
  ∀ s r t, x s = (.ok r, t) → a ≤ s.cells.size →
    a ≤ t.cells.size ∧ ∀ b, b < a → t.cell? b = s.cell? b

theorem spares_pure (r : α) : Spares a (pure r) := by
  intro s r' t h ha
  cases h
  exact ⟨ha, fun _ _ => rfl⟩

theorem Spares.bind {x : Build α} {f : α → Build β} (hx : Spares a x) (hf : ∀ r, Spares a (f r)) :
    Spares a (x >>= f) := by
  intro s r t h ha
  obtain ⟨w, u, hxs, hfs⟩ := andThen_eq_ok.mp h
  obtain ⟨hu, hcells⟩ := hx s w u hxs ha
  obtain ⟨ht, hcells'⟩ := hf w u r t hfs hu
  exact ⟨ht, fun b hb => (hcells' b hb).trans (hcells b hb)⟩

theorem spares_tempName : Spares a tempName := by
  intro s r t h ha
  cases h
  exact ⟨ha, fun _ _ => rfl⟩

theorem spares_literalRef : Spares a literalRef := by
  intro s r t h ha
  cases h
  exact ⟨ha, fun _ _ => rfl⟩

theorem spares_new_bind (c : Cell) {f : Address → Build β} (hf : ∀ b, a ≤ b → Spares a (f b)) :
    Spares a (new c >>= f) := by
  intro s r t h ha
  obtain ⟨w, u, hnew, hfs⟩ := andThen_eq_ok.mp h
  cases hnew
  obtain ⟨ht, hcells⟩ := hf _ ha _ r t hfs (ha.trans (Store.extends_push s c).size)
  refine ⟨ht, fun b hb => (hcells b hb).trans ?_⟩
  exact Store.cell?_push_of_lt s c b (lt_of_lt_of_le hb ha)

theorem spares_updateNode (hab : a ≤ b) (g : Node → Node) :
    Spares a (modify fun s => s.updateNode b g) := by
  intro s r t h ha
  cases h
  refine ⟨le_of_le_of_eq ha (Store.nextAddress_updateNode s b g).symm, fun c hc => ?_⟩
  exact Store.cell?_updateNode_of_ne (Nat.ne_of_lt (lt_of_lt_of_le hc hab)) g

theorem spares_setField (hab : a ≤ b) (f : Field) (v : Value) : Spares a (setField b f v) :=
  spares_updateNode hab _

/-- A node without a parent joins nothing. -/
theorem spares_startNode (hab : a ≤ b) (hparent : args.get .parent = .none) :
    Spares a (startNode b args) := by
  refine (spares_updateNode hab _).bind fun _ => ?_
  rw [if_neg (not_not_intro hparent)]
  exact spares_pure _

theorem spares_startType (hab : a ≤ b) (hparent : args.get .parent = .none) :
    Spares a (startType b args) := by
  refine (spares_startNode hab hparent).bind fun _ => ?_
  refine spares_tempName.bind fun name => ?_
  refine (spares_setField hab _ _).bind fun _ => ?_
  refine Spares.bind ?_ fun type => spares_setField hab _ _
  exact spares_new_bind _ fun c hc => (spares_startNode hc rfl).bind fun _ => spares_pure _

/-! ## Types -/

/-- Whether a form's constructor without arguments fails, or makes all that the form
promises. -/
def madeBare (form : Form) : Bool :=
  match Arguments.fill form [] with
  | .ok args => form.isA .node && covers form (formHints form) &&
    (args.lookup .loc).getD (.ref Shared.noPlace) = .ref Shared.noPlace && args.get .parent = .none
  | .error _ => true

theorem leads_newType (hform : madeBare form = true) :
    Leads D F (newType form) D fun v => [(.exactly form, v)] := by
  rw [madeBare] at hform
  rw [newType]
  cases hargs : Arguments.fill form [] with
  | error e => exact (fails_fail e).leads
  | ok args =>
    simp only [hargs, Bool.and_eq_true, decide_eq_true_eq] at hform
    obtain ⟨⟨⟨hnode, hcovers⟩, hloc⟩, hparent⟩ := hform
    refine leads_make hcovers fun a => ?_
    have hplaces : Places (F ++ [(.exactly form, .ref a)]) args := by
      refine ⟨?_, ?_⟩
      · rw [hloc]
        exact Facts.gives_shared rfl
      · rw [hparent]
        exact Facts.gives_shared rfl
    have ha : (Hint.exactly form, Value.ref a) ∈ F ++ [(.exactly form, .ref a)] :=
      List.mem_append_right _ (List.mem_singleton_self _)
    refine (leads_startForm hplaces (gives_node_of_mem ha hnode)).bind fun _ => ?_
    exact leads_pure _ (by simp)

/-- What the type of a literal is. -/
def literalTypeHint : Hint :=
  .either (.node .anyType) (.exactly .exprType)

theorem madeBare_type (h : form.isA .anyType = true ∨ form = .exprType) : madeBare form = true := by
  have hall : ∀ f : Form, f.isA .anyType = true ∨ f = .exprType → madeBare f = true := by
    intro f
    cases f <;> decide
  exact hall form h

/-- A new type of a form that literals have. -/
theorem leads_newExprType (h : form.isA .anyType = true ∨ form = .exprType) :
    Leads D F (newType form) D fun v => [(.node .exprType, v)] := by
  have hisA : form.isA .exprType = true := by
    rcases h with hany | rfl
    · exact Form.isA_trans hany (by decide)
    · decide
  refine (leads_newType (madeBare_type h)).weaken fun v e he => ?_
  obtain rfl := List.mem_singleton.mp he
  exact ⟨_, List.mem_singleton_self _, hisA⟩

/-- A type like that of a literal. -/
theorem leads_newTypeLike {type : Value} (htype : F.Gives literalTypeHint type) :
    Leads D F (newTypeLike type) D fun v => [(.node .exprType, v)] := by
  intro s r t hs hF hx
  -- The type is a node, of a form that can be made without arguments.
  have hmeets := htype s hs.shared hF
  simp only [literalTypeHint, Hint.loose, Hint.meets, Bool.or_eq_true, decide_eq_true_eq] at hmeets
  obtain ⟨form, hform, hbare⟩ : ∃ form, s.formOf? type = some form ∧
      (form.isA .anyType = true ∨ form = .exprType) := by
    rcases hmeets with hany | hexact
    · obtain ⟨form, hform, hany⟩ := Store.isForm_iff.mp hany
      exact ⟨form, hform, .inl hany⟩
    · exact ⟨_, hexact, .inr rfl⟩
  obtain ⟨n, hn, rfl⟩ := Store.formOf?_eq_some.mp hform
  cases type with
  | ref b =>
    obtain ⟨c, u, hcell, hrest⟩ := andThen_eq_ok.mp hx
    obtain ⟨hc, rfl⟩ := cell?_of_look hcell
    rw [Store.cellOf?, hc] at hn
    cases hn
    exact leads_newExprType hbare u r t hs hF hrest
  | _ => cases hn

/-- New types like those of some literals. -/
theorem leads_mapM_newTypeLike {types : List Value}
    (htypes : ∀ v ∈ types, F.Gives literalTypeHint v) :
    Leads D F (types.mapM newTypeLike) D fun vs => vs.map fun v => (.node .exprType, v) := by
  induction types generalizing F with
  | nil => exact leads_pure _ (by simp)
  | cons v types ih =>
    rw [List.mapM_cons]
    refine (leads_newTypeLike (htypes v (List.mem_cons_self ..))).bind fun w => ?_
    refine (ih fun u hu => (htypes u (List.mem_cons_of_mem _ hu)).append).bind fun ws => ?_
    refine leads_pure _ fun e he => ?_
    simp only [List.map_cons, List.mem_cons] at he
    rcases he with rfl | he
    · simp
    · exact List.mem_append_right _ he

theorem leads_commonType {types : List Value} (htypes : ∀ v ∈ types, F.Gives literalTypeHint v) :
    Leads D F (commonType types) D fun v => [(.node .exprType, v)] := by
  have hint : Leads D F (newType .int32) D fun v => [(.node .exprType, v)] :=
    leads_newExprType (.inl (by decide))
  match types with
  | [] => exact hint
  | [v] => exact leads_newTypeLike (htypes v (List.mem_singleton_self v))
  | _ :: _ :: _ => exact hint

/-! ## Literals that are collections -/

/-- A node that is made with all that its form promises. -/
theorem leads_newCollectionType {values : List (Field × Value)}
    (hlists : values.lookup .ops = none ∧ ∀ f ∈ form.telling, values.lookup f = none)
    (hvalues : ∀ e ∈ form.kept, ∃ v, values.lookup e.1 = some v ∧ F.Gives e.2 v)
    (hall : ∀ e ∈ values, F.Gives .anything e.2) :
    Leads D F (newCollectionType form values) D fun v => [(.exactly form, v)] := by
  intro s r t hs hF hx
  cases hx
  have hext := Store.extends_push s (.node ⟨form, 0, values⟩)
  refine ⟨hs.push (fun _ _ => rfl) ?_ ?_, fun e he => ?_, hext⟩
  · intro b hb
    obtain ⟨e, he, hb⟩ := List.mem_filterMap.mp hb
    have hholds := hall e he s hs.shared hF
    cases hv : e.2 with
    | ref c =>
      rw [hv] at hb hholds
      cases hb
      exact of_decide_eq_true hholds
    | _ =>
      rw [hv] at hb
      cases hb
  · intro n hn
    cases hn
    refine ⟨hlists.1, hlists.2 .nodes form.nodes_mem_telling, fun e he => ?_, fun f hf _ => ?_⟩
    · have hnone : D s.nextAddress = none := hs.fresh _ (le_refl _)
      rw [Drafts.promised, hnone, Option.getD_none, List.mem_filter] at he
      obtain ⟨v, hv, hgives⟩ := hvalues e he.1
      exact ⟨v, hv, hgives s hs.shared hF⟩
    · exact hlists.2 f hf
  · obtain rfl := List.mem_singleton.mp he
    exact decide_eq_true (Store.formOf?_eq_some.mpr ⟨_, Store.cell?_push_next s _, rfl⟩)

/-- The type of a finished literal. -/
theorem literalType_of_field {x w : Value} (hs : Sound D s) (hx : s.isForm x .literal = true)
    (hfinished : ∀ b, x = .ref b → D b = none) (hw : run (field x .type) s = .ok w) :
    literalTypeHint.meets s w = true := by
  have hkept : ∀ f : Form, f.isA .literal = true → (.type, literalTypeHint) ∈ f.kept := by
    intro f
    cases f <;> decide
  cases x with
  | ref b =>
    obtain ⟨n, hn, hisA⟩ := Store.isForm_ref.mp hx
    have hc : n.form.computed? .type = none := by simp [Form.computed?]
    exact hs.meets_of_field (hfinished b rfl) hn (hkept _ hisA) hc hw
  | _ => exact absurd hx (by simp [Store.isForm, Store.formOf?, Store.nodeOf?])

/-- The types that are left when types of one form are taken once are among all of them. -/
theorem distinctTypes_inv {xs types : List Value} (h : run (distinctTypes xs) s = .ok types) :
    ∀ t ∈ types, ∃ x ∈ xs, run (field x .type) s = .ok t := by
  rw [distinctTypes, run_bind, run_mapM] at h
  obtain ⟨all, hall, hfold⟩ := bind_eq_ok.mp h
  have hmem : ∀ t ∈ types, t ∈ all := by
    have hsub : ∀ (rest kept : List Value) (ts : List Value),
        run (rest.foldlM (fun kept t => do
          let sort ← sortOf t
          let sorts ← kept.mapM sortOf
          return if sorts.contains sort then kept else kept ++ [t]) kept) s = .ok ts →
        ∀ t ∈ ts, t ∈ kept ∨ t ∈ rest := by
      intro rest
      induction rest with
      | nil =>
        intro kept ts hts t ht
        cases hts
        exact .inl ht
      | cons u rest ih =>
        intro kept ts hts t ht
        rw [List.foldlM_cons, run_bind] at hts
        obtain ⟨kept', hkept, hts⟩ := bind_eq_ok.mp hts
        simp only [run_bind, run_pure] at hkept
        obtain ⟨sort, -, hkept⟩ := bind_eq_ok.mp hkept
        obtain ⟨sorts, -, hkept⟩ := bind_eq_ok.mp hkept
        rcases ih kept' ts hts t ht with ht | ht
        · cases hkept
          split at ht
          · exact .inl ht
          · rcases List.mem_append.mp ht with ht | ht
            · exact .inl ht
            · exact .inr (List.mem_singleton.mp ht ▸ List.mem_cons_self ..)
        · exact .inr (List.mem_cons_of_mem _ ht)
    intro t ht
    rcases hsub all [] types hfold t ht with hnil | hall
    · cases hnil
    · exact hall
  exact fun t ht => mapM_inv hall t (hmem t ht)

/-- Literals that are finished, whatever is known of the draft. -/
structure Finished (D : Drafts) (a : Address) (F : Facts) (xs : List Value) : Prop where
  gives : ∀ x ∈ xs, F.Gives (.node .literal) x
  none : ∀ fields b, .ref b ∈ xs → D.start a fields b = .none

theorem Finished.append {G : Facts} (h : Finished D a F xs) : Finished D a (F ++ G) xs :=
  ⟨fun x hx => (h.gives x hx).append, h.none⟩

/-- The types of finished literals. -/
theorem leads_distinctTypes (hxs : Finished D a F xs) :
    Leads (D.start a fields) F (look (distinctTypes xs)) (D.start a fields) fun ts =>
      ts.map fun t => (literalTypeHint, t) := by
  refine leads_look fun s types hs hF hrun e he => ?_
  obtain ⟨t, ht, rfl⟩ := List.mem_map.mp he
  obtain ⟨x, hx, hfield⟩ := distinctTypes_inv hrun t ht
  exact literalType_of_field hs (hxs.gives x hx s hs.shared hF)
    (fun b hb => hxs.none fields b (hb ▸ hx)) hfield

/-- A new list of nodes. -/
theorem leads_newList {f : Form} (hf : f.isA .node = true) (hxs : ∀ x ∈ xs, F.Gives (.node f) x) :
    Leads D F (newList xs) D fun v => [(.items .node, v)] := by
  have hnew : Leads D F (new (.list xs)) D fun b => [(.items .node, .ref b)] := by
    refine leads_new (by simp) (fun b hb => ?_) fun s hs hF e he => ?_
    · exact (hxs _ (Cell.mem_filterMap_address?.mp hb)).anything
    · obtain rfl := List.mem_singleton.mp he
      have hlist : (s.push (.list xs)).cellOf? (.ref s.nextAddress) = some (.list xs) :=
        Store.cell?_push_next s _
      have hitems : (s.push (.list xs)).allItems (fun x => (s.push (.list xs)).isForm x .node &&
          (s.push (.list xs)).isOutlined x) (.ref s.nextAddress) = true := by
        simp only [Store.allItems, hlist, Option.bind_some, sequence?, Option.any_some,
          List.all_eq_true, Bool.and_eq_true]
        intro x hx
        obtain ⟨g, hg, hgf⟩ := Store.isForm_iff.mp (hxs x hx _ hs hF)
        have hnode := Store.isForm_iff.mpr ⟨g, hg, Form.isA_trans hgf hf⟩
        exact ⟨hnode, by rw [Store.isOutlined, hnode, Bool.true_or]⟩
      show (Hint.items .node).meets _ _ = true
      rw [Hint.meets, hitems, Bool.or_true]
  exact hnew.bind fun b => leads_pure _ (by simp)

/-- A new collection of which only is known that it is there. -/
theorem leads_newPlain (hc : ∀ n, c ≠ .node n)
    (htargets : ∀ b ∈ c.targets, F.Gives .anything (.ref b)) :
    Leads D F (new c) D fun b => [(.anything, .ref b)] := by
  refine leads_new hc htargets fun s _ _ e he => ?_
  obtain rfl := List.mem_singleton.mp he
  exact decide_eq_true (by simp [Store.push, Store.nextAddress])

/-- A look that went well, and the store after it. -/
theorem look_inv {x : Look α} {r : α} (hs : Sound D s) (h : look x s = (.ok r, t)) :
    run x s = .ok r ∧ Sound D t ∧ s.Extends t := by
  have hrun : run x s = .ok r ∧ s.applyMoves (x s).moves = t := Prod.mk.inj h
  obtain ⟨ht, hext⟩ := hs.applyMoves (x s).moves
  exact ⟨hrun.1, hrun.2 ▸ ht, hrun.2 ▸ hext⟩

/-- What is known of a literal that is a collection. -/
def collectionHints (form : Form) (fields : List (Field × Hint)) : List (Field × Hint) :=
  put .type (match form with
    | .literalTuple => .exactly .tupleType
    | .literalList => .exactly .listType
    | .literalSet => .exactly .setType
    | _ => .exactly .dictType) (put .elements .anything fields)

/-- The type of a collection goes into its field. -/
theorem leads_giveCollectionType (hkept : form.kept = [(f, h)]) (hf : f ≠ .ops ∧ f ∉ form.telling)
    (hv : F.Gives h v) :
    Leads (D.start a fields) F
      (newCollectionType form [(f, v)] >>= fun w => setField a .type w)
      (D.start a (put .type (.exactly form) fields)) fun _ => [] := by
  refine Leads.bind (leads_newCollectionType ?_ ?_ ?_) fun w => ?_
  · refine ⟨by simp [List.lookup_cons, beq_false_of_ne hf.1.symm], fun g hg => ?_⟩
    have hne : g ≠ f := by
      rintro rfl
      exact hf.2 hg
    simp [List.lookup_cons, beq_false_of_ne hne]
  · rw [hkept]
    exact List.forall_mem_singleton.mpr ⟨v, by simp, hv⟩
  · exact List.forall_mem_singleton.mpr hv.anything
  · exact leads_setField (by decide) (Facts.gives_of_mem (by simp))

/-- A list of the items, and a type for them. -/
theorem leads_listOf (hxs : Finished D a F xs) :
    Leads (D.start a fields) F (do
      setField a .elements (← newList xs)
      let types ← (← distinctTypes xs).mapM newTypeLike
      setField a .type (← newCollectionType .listType [(.elementTypes, ← newList types)]))
      (D.start a (collectionHints .literalList fields)) fun _ => [] := by
  refine (leads_newList (f := .literal) (by decide) hxs.gives).bind fun l => ?_
  refine (leads_setField (h := .anything) (by decide)
    (Facts.gives_of_mem (h := .items .node) (by simp)).anything).bind fun _ => ?_
  refine (leads_distinctTypes hxs.append.append).bind fun ts => ?_
  refine (leads_mapM_newTypeLike fun v hv => Facts.gives_of_mem
    (List.mem_append_right _ (List.mem_map_of_mem hv))).bind fun types => ?_
  refine (leads_newList (f := .exprType) (by decide) fun v hv => Facts.gives_of_mem
    (List.mem_append_right _ (List.mem_map_of_mem hv))).bind fun l' => ?_
  exact leads_giveCollectionType (h := .items .node) rfl (by decide) (Facts.gives_of_mem (by simp))

/-- A set of the items, and a type for them. -/
theorem leads_setOf (hxs : Finished D a F xs) :
    Leads (D.start a fields) F (do
      setField a .elements (.ref (← new (.set xs)))
      let type ← commonType (← distinctTypes xs)
      setField a .type (← newCollectionType .setType [(.elementType, type)]))
      (D.start a (collectionHints .literalSet fields)) fun _ => [] := by
  refine (leads_newPlain (by simp) fun b hb => ?_).bind fun l => ?_
  · exact (hxs.gives _ (Cell.mem_filterMap_address?.mp hb)).anything
  refine (leads_setField (h := .anything) (by decide) (Facts.gives_of_mem (by simp))).bind
    fun _ => ?_
  refine (leads_distinctTypes hxs.append.append).bind fun ts => ?_
  refine (leads_commonType fun v hv => Facts.gives_of_mem
    (List.mem_append_right _ (List.mem_map_of_mem hv))).bind fun type => ?_
  exact leads_giveCollectionType (h := .node .exprType) rfl (by decide) (Facts.gives_of_mem (by simp))

/-- A dictionary of the entries, and types for keys and values. -/
theorem leads_dictOf {es : List (Value × Value)} (hkeys : Finished D a F (es.map Prod.fst))
    (hvalues : Finished D a F (es.map Prod.snd)) :
    Leads (D.start a fields) F (do
      setField a .elements (.ref (← new (.dict es)))
      let keys ← distinctTypes (es.map Prod.fst)
      let values ← distinctTypes (es.map Prod.snd)
      let key ← commonType keys
      let value ← commonType values
      setField a .type (← newCollectionType .dictType [(.keyType, key), (.valueType, value)]))
      (D.start a (collectionHints .literalDict fields)) fun _ => [] := by
  refine (leads_newPlain (by simp) fun b hb => ?_).bind fun l => ?_
  · obtain ⟨e, he, hb⟩ := List.mem_flatMap.mp hb
    rw [Cell.mem_filterMap_address?, List.mem_cons, List.mem_singleton] at hb
    rcases hb with hb | hb
    · exact (hkeys.gives _ (hb ▸ List.mem_map_of_mem he)).anything
    · exact (hvalues.gives _ (hb ▸ List.mem_map_of_mem he)).anything
  refine (leads_setField (h := .anything) (by decide) (Facts.gives_of_mem (by simp))).bind
    fun _ => ?_
  refine (leads_distinctTypes hkeys.append.append).bind fun ks => ?_
  refine (leads_distinctTypes hvalues.append.append.append).bind fun vs => ?_
  refine (leads_commonType fun v hv => Facts.gives_of_mem (List.mem_append_left _
    (List.mem_append_right _ (List.mem_map_of_mem hv)))).bind fun key => ?_
  refine (leads_commonType fun v hv => Facts.gives_of_mem (List.mem_append_left _
    (List.mem_append_right _ (List.mem_map_of_mem hv)))).bind fun value => ?_
  have hkept : Form.kept .dictType = [(.keyType, .node .exprType), (.valueType, .node .exprType)] :=
    rfl
  have htelling : ∀ f ∈ Form.telling .dictType,
      [(Field.keyType, key), (.valueType, value)].lookup f = none := by
    intro f hf
    rcases Form.mem_telling hf with rfl | rfl | rfl | rfl | rfl | ⟨rfl, -⟩
    all_goals rfl
  refine Leads.bind (leads_newCollectionType ⟨rfl, htelling⟩ ?_ ?_) fun w => ?_
  · rw [hkept]
    simp only [List.mem_cons, List.not_mem_nil, or_false, forall_eq_or_imp, forall_eq]
    exact ⟨⟨key, rfl, Facts.gives_of_mem (by simp)⟩, ⟨value, rfl, Facts.gives_of_mem (by simp)⟩⟩
  · simp only [List.mem_cons, List.not_mem_nil, or_false, forall_eq_or_imp, forall_eq]
    exact ⟨(Facts.gives_of_mem (h := .node .exprType) (by simp)).anything,
      (Facts.gives_of_mem (h := .node .exprType) (by simp)).anything⟩
  · exact leads_setField (by decide) (Facts.gives_of_mem (by simp))

/-- The items of a plain collection. -/
theorem members_inv {f : Form} (h : (Hint.members f).meets s v = true) :
    ∃ c xs, s.cellOf? v = some c ∧ sequence? c = some xs ∧ Contains s v xs ∧
      ∀ x ∈ xs, s.isForm x f = true := by
  obtain ⟨c, xs, hc, hxs, hall⟩ := Store.allItems_iff.mp h
  cases v with
  | ref b => exact ⟨c, xs, hc, hxs, .plain hc hxs, hall⟩
  | _ => cases hc

theorem targets_of_sequence? (h : sequence? c = some xs) :
    c.targets = xs.filterMap Cell.targets.address? := by
  cases c <;> cases h <;> rfl

/-- Facts about the items of a list. -/
def about (h : Hint) (xs : List Value) : Facts :=
  xs.map fun x => (h, x)

theorem hold_about (hxs : ∀ x ∈ xs, h.loose.meets s x = true) : (about h xs).Hold s := by
  intro e he
  obtain ⟨x, hx, rfl⟩ := List.mem_map.mp he
  exact hxs x hx

/-- Literals that are finished in a store with one draft. -/
theorem finished_about (hnone : ∀ fields b, .ref b ∈ xs → D.start a fields b = none) :
    Finished D a (about (.node .literal) xs) xs :=
  ⟨fun _ hx => Facts.gives_of_mem (List.mem_map_of_mem hx), hnone⟩

/-- The forms of literals that are collections. -/
def collections : List Form :=
  [.literalList, .literalTuple, .literalSet, .literalDict]

theorem run_forEach_pure (h : Contains s v xs) : run (forEach v pure) s = .ok xs := by
  rw [h.run_forEach_ok (g := id) fun _ _ => rfl, List.map_id]

/-- Literals of which nothing else than that they are finished is known. -/
structure AllFinished (D : Drafts) (a : Address) (s : Store) (xs : List Value) : Prop where
  literals : ∀ x ∈ xs, s.isForm x .literal = true
  none : ∀ fields b, .ref b ∈ xs → D.start a fields b = .none

theorem AllFinished.hold (h : AllFinished D a s xs) (hext : s.Extends t) :
    (about (.node .literal) xs).Hold t :=
  hold_about fun x hx => hext.isForm (h.literals x hx)

theorem exprType_of_literalType (h : literalTypeHint.meets s v = true) :
    s.isForm v .exprType = true := by
  simp only [literalTypeHint, Hint.meets, Bool.or_eq_true, decide_eq_true_eq] at h
  rcases h with hany | hexact
  · obtain ⟨g, hg, hany⟩ := Store.isForm_iff.mp hany
    exact Store.isForm_iff.mpr ⟨g, hg, Form.isA_trans hany (by decide)⟩
  · exact Store.isForm_iff.mpr ⟨_, hexact, by decide⟩

/-- The entries of a dictionary of literals. -/
theorem entries_inv {f : Form} (h : (Hint.entries f).meets s v = true) :
    ∃ es, s.cellOf? v = some (.dict es) ∧ run (entriesOf v) s = .ok es ∧
      ∀ e ∈ es, s.isForm e.1 f = true ∧ s.isForm e.2 f = true := by
  simp only [Hint.meets] at h
  split at h
  · next es hes =>
    simp only [List.all_eq_true, Bool.and_eq_true] at h
    refine ⟨es, hes, ?_, h⟩
    cases v with
    | ref b =>
      have hcell : s.cell? b = some (.dict es) := hes
      simp only [entriesOf, run_bind, run_cell hcell, ok_bind, run_pure]
    | _ => cases hes
  · exact absurd h (by simp)

/-- A tuple keeps its items, and its type lists their types. -/
theorem tupleOf_sound {elements : Value} (hs : Sound (D.start a fields) s)
    (hc : s.cellOf? elements = some c) (hseq : sequence? c = some xs) (hxs : AllFinished D a s xs)
    (h : fillCollection a .literalTuple elements s = (.ok (), t)) :
    Sound (D.start a (collectionHints .literalTuple fields)) t ∧ s.Extends t := by
  obtain ⟨_, s₁, hset, hrest⟩ := andThen_eq_ok.mp h
  obtain ⟨types, s₂, hlook, hrest⟩ := andThen_eq_ok.mp hrest
  have hheld : Facts.Hold [(.anything, elements)] s := by
    exact List.forall_mem_singleton.mpr (Store.holds_of_cellOf? hc)
  obtain ⟨hs₁, -, hext₁⟩ := leads_setField (h := .anything) (by decide)
    (Facts.gives_of_mem (List.mem_singleton_self _)) s () s₁ hs hheld hset
  -- The items are still there.
  have hnode : ∀ n, c ≠ .node n := by
    rintro n rfl
    cases hseq
  have hcontains : Contains s₁ elements xs := by
    cases hset
    cases elements with
    | ref b => exact .plain (Store.cell?_updateNode hc hnode _) hseq
    | _ => cases hc
  obtain ⟨hrun, hs₂, hext₂⟩ := look_inv hs₁ hlook
  have hmapM : (xs.mapM fun x => run (field x .type) s₁) = .ok types :=
    (hcontains.run_forEach _).symm.trans hrun
  have htypes : ∀ v ∈ types, s₁.isForm v .exprType = true := by
    intro v hv
    obtain ⟨x, hx, hfield⟩ := mapM_inv hmapM v hv
    exact exprType_of_literalType (literalType_of_field hs₁ (hext₁.isForm (hxs.literals x hx))
      (fun b hb => hxs.none _ b (hb ▸ hx)) hfield)
  have hfacts : (about (.node .exprType) types).Hold s₂ :=
    hold_about fun v hv => hext₂.isForm (htypes v hv)
  have hlist : Leads (D.start a (put .elements .anything fields)) (about (.node .exprType) types)
      (do setField a .type (← newCollectionType .tupleType [(.elementTypes, ← newList types)]))
      (D.start a (collectionHints .literalTuple fields)) fun _ => [] := by
    refine (leads_newList (f := .exprType) (by decide) fun v hv => Facts.gives_of_mem
      (List.mem_map_of_mem hv)).bind fun l => ?_
    exact leads_giveCollectionType (h := .items .node) rfl (by decide)
      (Facts.gives_of_mem (by simp))
  obtain ⟨ht, -, hext₃⟩ := hlist s₂ () t hs₂ hfacts hrest
  exact ⟨ht, hext₁.trans (hext₂.trans hext₃)⟩

/-- What a collection is filled with. -/
theorem fillCollection_sound {elements : Value} (hform : form ∈ collections)
    (hs : Sound (D.start a fields) s)
    (helements : ((form.expects .elements).getD .absent).meets s elements = true)
    (hnone : ∀ c, s.cellOf? elements = some c → ∀ fields, ∀ b ∈ c.targets,
      D.start a fields b = none) (h : fillCollection a form elements s = (.ok (), t)) :
    Sound (D.start a (collectionHints form fields)) t ∧ s.Extends t := by
  have hsequence : (Hint.members .literal).meets s elements = true →
      ∃ c xs, s.cellOf? elements = some c ∧ sequence? c = some xs ∧ Contains s elements xs ∧
        AllFinished D a s xs := by
    intro hmembers
    obtain ⟨c, xs, hc, hseq, hxs, hliterals⟩ := members_inv hmembers
    refine ⟨c, xs, hc, hseq, hxs, hliterals, fun fields b hb => hnone c hc fields b ?_⟩
    rw [targets_of_sequence? hseq]
    exact Cell.mem_filterMap_address?.mpr hb
  simp only [collections, List.mem_cons, List.not_mem_nil, or_false] at hform
  rcases hform with rfl | rfl | rfl | rfl
  · obtain ⟨c, xs, hc, hseq, hxs, hall⟩ := hsequence helements
    obtain ⟨items, u, hlook, hrest⟩ := andThen_eq_ok.mp h
    obtain ⟨hrun, hu, hext⟩ := look_inv hs hlook
    cases (run_forEach_pure hxs).symm.trans hrun
    obtain ⟨ht, -, hext'⟩ := leads_listOf (finished_about hall.none) u () t hu (hall.hold hext) hrest
    exact ⟨ht, hext.trans hext'⟩
  · obtain ⟨c, xs, hc, hseq, -, hall⟩ := hsequence helements
    exact tupleOf_sound hs hc hseq hall h
  · obtain ⟨c, xs, hc, hseq, hxs, hall⟩ := hsequence helements
    obtain ⟨items, u, hlook, hrest⟩ := andThen_eq_ok.mp h
    obtain ⟨hrun, hu, hext⟩ := look_inv hs hlook
    cases (run_forEach_pure hxs).symm.trans hrun
    obtain ⟨ht, -, hext'⟩ := leads_setOf (finished_about hall.none) u () t hu (hall.hold hext) hrest
    exact ⟨ht, hext.trans hext'⟩
  · obtain ⟨es, hes, hrun', hliterals⟩ := entries_inv helements
    obtain ⟨entries, u, hlook, hrest⟩ := andThen_eq_ok.mp h
    obtain ⟨hrun, hu, hext⟩ := look_inv hs hlook
    cases hrun'.symm.trans hrun
    -- Keys and values are among what the dictionary holds.
    have hmem : ∀ fields b e, e ∈ es → .ref b = e.1 ∨ .ref b = e.2 → D.start a fields b = none := by
      intro fields b e he hb
      refine hnone _ hes fields b (List.mem_flatMap.mpr ⟨e, he, ?_⟩)
      rw [Cell.mem_filterMap_address?, List.mem_cons, List.mem_singleton]
      exact hb
    have hkeys : AllFinished D a s (es.map Prod.fst) := by
      refine ⟨fun x hx => ?_, fun fields b hb => ?_⟩
      · obtain ⟨e, he, rfl⟩ := List.mem_map.mp hx
        exact (hliterals e he).1
      · obtain ⟨e, he, heq⟩ := List.mem_map.mp hb
        exact hmem fields b e he (.inl heq.symm)
    have hvalues : AllFinished D a s (es.map Prod.snd) := by
      refine ⟨fun x hx => ?_, fun fields b hb => ?_⟩
      · obtain ⟨e, he, rfl⟩ := List.mem_map.mp hx
        exact (hliterals e he).2
      · obtain ⟨e, he, heq⟩ := List.mem_map.mp hb
        exact hmem fields b e he (.inr heq.symm)
    obtain ⟨ht, -, hext'⟩ := leads_dictOf (finished_about hkeys.none).append
      ⟨fun x hx => Facts.gives_of_mem (List.mem_append_right _ (List.mem_map_of_mem hx)),
        hvalues.none⟩ u () t hu ((hkeys.hold hext).append (hvalues.hold hext)) hrest
    exact ⟨ht, hext.trans hext'⟩

/-! ## Literals -/

/-- What is known of a literal after it got a type. -/
def typeHint (type : Option Form) (fields : List (Field × Hint)) : List (Field × Hint) :=
  match type with
  | some form => put .type (.exactly form) fields
  | none => fields

theorem leads_giveType {type : Option Form}
    (htype : ∀ form, type = some form → madeBare form = true) :
    Leads (D.start a fields) F (giveType a type) (D.start a (typeHint type fields))
      fun _ => [] := by
  cases type with
  | none => exact leads_pure _ (by simp)
  | some form =>
    refine (leads_newType (htype form rfl)).bind fun v => ?_
    exact leads_setField (by decide) (Facts.gives_of_mem (by simp))

/-- What is known of a literal after it got its value. -/
def valueHint (form : Form) (fields : List (Field × Hint)) : List (Field × Hint) :=
  if form.isA .literalComplex then put .value .pair fields
  else if form ≠ .literal then put .value ((form.expects .value).getD .absent) fields
  else fields

/-- What is known of a literal that is no collection. -/
def literalHints (form : Form) : List (Field × Hint) :=
  typeHint (refinedType? form) (typeHint (literalType? form)
    (valueHint form (put .ref .text typeHints)))

/-- A new pair of numbers. -/
theorem leads_newPair {x y : Value} (hx : F.Gives .float x) (hy : F.Gives .float y) :
    Leads D F (newTuple [x, y]) D fun v => [(.pair, v)] := by
  have hnew : Leads D F (new (.tuple [x, y])) D fun b => [(.pair, .ref b)] := by
    refine leads_new (by simp) (fun b hb => ?_) fun s hs hF e he => ?_
    · rw [Cell.targets, Cell.mem_filterMap_address?, List.mem_cons, List.mem_singleton] at hb
      rcases hb with rfl | rfl
      · exact hx.anything
      · exact hy.anything
    · obtain rfl := List.mem_singleton.mp he
      have htuple : (s.push (.tuple [x, y])).cellOf? (.ref s.nextAddress) = some (.tuple [x, y]) :=
        Store.cell?_push_next s _
      have hnx : Hint.isNumber x = true := hx _ hs hF
      have hny : Hint.isNumber y = true := hy _ hs hF
      simp only [Hint.loose, Hint.meets, htuple, hnx, hny, Bool.and_self]
  exact hnew.bind fun b => leads_pure _ (by simp)

/-- An argument that is as the constructor expects it. -/
theorem Fits.gives (hargs : Fits F form args)
    (hparam : form.signature.2.any (fun p => p.field = f) = true)
    (hexpects : form.expects f = some h) (hloc : f ≠ .loc) : F.Gives h (args.get f) := by
  obtain ⟨p, hp, hf⟩ := List.any_eq_true.mp hparam
  obtain rfl := of_decide_eq_true hf
  exact hargs.expected p hp hloc h hexpects

/-- Gives a literal its value. -/
def setValue (a : Address) (form : Form) (args : Arguments) : Build Unit :=
  if form.isA .literalComplex then do setField a .value (← newTuple [args.get .real, args.get .imag])
  else if form ≠ .literal then setField a .value (args.get .value)
  else pure ()

/-- The last part of filling a literal that is no collection. -/
def fillValue (a : Address) (form : Form) (args : Arguments) : Build Unit := do
  setValue a form args
  giveType a (literalType? form)
  giveType a (refinedType? form)

theorem fillLiteral_eq (a : Address) (form : Form) (args : Arguments) :
    fillLiteral a form args = (do
      startType a args
      let ref ← literalRef
      setField a .ref (.text ref)
      if form ∈ collections then fillCollection a form (args.get .elements)
      else fillValue a form args) := by
  have hlast : ∀ x : Build Unit, (if form.isA .literalComplex then do
      setField a .value (← newTuple [args.get .real, args.get .imag])
      x
    else if form ≠ .literal then do
      setField a .value (args.get .value)
      x
    else x) = (setValue a form args >>= fun _ => x) := by
    intro x
    rw [setValue]
    split
    · rfl
    · split
      · rfl
      · rfl
  have hmem : ([.literalList, .literalTuple, .literalSet, .literalDict].contains form = true) =
      (form ∈ collections) := propext List.contains_iff_mem
  simp only [fillLiteral, hmem, hlast]
  rfl

section

variable (hform : form.isA .literal = true) (hcollection : form ∉ collections)

include hform hcollection

/-- The value of a literal is as its form promises. -/
theorem gives_value (hcomplex : form.isA .literalComplex = false) (hargs : Fits F form args) :
    F.Gives ((form.expects .value).getD .absent) (args.get .value) := by
  have hall : ∀ f : Form, f.isA .literal = true → f ∉ collections →
      f.isA .literalComplex = false →
      (f.signature.2.any (fun p => p.field = .value) = true ∧ (f.expects .value).isSome = true) ∨
      (f.signature.2.all (fun p => p.field ≠ .value) = true ∧ f.expects .value = none) := by
    intro f
    cases f <;> decide
  rcases hall form hform hcollection hcomplex with ⟨hparam, hsome⟩ | ⟨hall, hnone⟩
  · obtain ⟨h, hh⟩ := Option.isSome_iff_exists.mp hsome
    rw [hh]
    exact hargs.gives hparam hh (by decide)
  · rw [hnone, hargs.others .value fun p hp => of_decide_eq_true (List.all_eq_true.mp hall p hp)]
    exact fun _ _ _ => rfl

theorem leads_setValue (hargs : Fits F form args) :
    Leads (D.start a fields) F (setValue a form args) (D.start a (valueHint form fields))
      fun _ => [] := by
  rw [setValue, valueHint]
  cases hcomplex : form.isA .literalComplex with
  | true =>
    have hall : ∀ f : Form, f.isA .literalComplex = true →
        (f.signature.2.any (fun p => p.field = .real) = true ∧ f.expects .real = some .float) ∧
        (f.signature.2.any (fun p => p.field = .imag) = true ∧ f.expects .imag = some .float) := by
      intro f
      cases f <;> decide
    obtain ⟨hreal, himag⟩ := hall form hcomplex
    refine (leads_newPair (hargs.gives hreal.1 hreal.2 (by decide))
      (hargs.gives himag.1 himag.2 (by decide))).bind fun v => ?_
    exact leads_setField (by decide) (Facts.gives_of_mem (by simp))
  | false =>
    simp only [Bool.false_eq_true, if_false]
    split
    · exact leads_setField (by decide) (gives_value hform hcollection hcomplex hargs)
    · exact leads_pure _ (by simp)

theorem leads_fillValue (hargs : Fits F form args) :
    Leads (D.start a (put .ref .text typeHints)) F (fillValue a form args)
      (D.start a (literalHints form)) fun _ => [] := by
  have hall : ∀ f : Form, (literalType? f).all madeBare = true ∧
      (refinedType? f).all madeBare = true := by
    intro f
    cases f <;> decide
  obtain ⟨htype, hrefined⟩ := hall form
  refine (leads_setValue hform hcollection hargs).bind fun _ => ?_
  refine (leads_giveType fun g hg => ?_).bind fun _ => leads_giveType fun g hg => ?_
  · rwa [hg] at htype
  · rwa [hg] at hrefined

/-- A literal that is no collection is filled. -/
theorem leads_fillLiteral (hargs : Fits F form args) (ha : F.Gives (.node .node) (.ref a)) :
    Leads (D.start a []) F (fillLiteral a form args) (D.start a (literalHints form))
      fun _ => [] := by
  rw [fillLiteral_eq]
  refine (leads_startType hargs.toPlaces ha).bind fun _ => ?_
  refine leads_literalRef.bind fun ref => ?_
  refine (leads_setField (h := .text) (by decide) (Facts.gives_of_mem (by simp))).bind fun _ => ?_
  rw [if_neg hcollection]
  exact leads_fillValue hform hcollection hargs.append.append.append

/-- The forms of literals get all that they promise. -/
theorem covers_literal : covers form (literalHints form) = true := by
  have hall : ∀ f : Form, f.isA .literal = true → f ∉ collections →
      covers f (literalHints f) = true := by
    intro f
    cases f <;> decide
  exact hall form hform hcollection

end

/-- A new literal for what is not there. -/
theorem leads_newNone : Leads D F newNone D fun v => [(.node .expr, v)] := by
  refine leads_make (covers_literal (by decide) (by decide)) fun a => ?_
  have ha : (Hint.exactly .literalNone, Value.ref a) ∈ F ++ [(.exactly .literalNone, .ref a)] :=
    List.mem_append_right _ (List.mem_singleton_self _)
  have hargs : Fits (F ++ [(.exactly .literalNone, .ref a)]) .literalNone [] := by
    refine ⟨places_nil, fun p hp hloc => ?_, fun f _ => rfl⟩
    have honly : ∀ p ∈ Form.signature .literalNone |>.2, p.field = .loc := by
      simp only [Form.signature]
      decide
    exact absurd (honly p hp) hloc
  refine (leads_fillLiteral (by decide) (by decide) hargs
    (gives_node_of_mem ha (by decide))).bind fun _ => ?_
  refine leads_return fun e he => ?_
  obtain rfl := List.mem_singleton.mp he
  exact (gives_node_of_mem ha (by decide)).append

end Build

end ProgramTree
