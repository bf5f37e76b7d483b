/-
What each constructor puts into its node.

`filledHints` says for each form what its constructor puts into the node, `covers_filled`
that this is all that the form promises, and `fill_sound` that the constructor does so,
whatever the form, when its arguments are as it expects them (`Meets`). Most forms are
filled in one of a few ways (`fillOrdinary`); the others have a lemma of their own.
-/
import ProgramTree.Proofs.Operands

namespace ProgramTree

open Look

namespace Build

variable {α β : Type} {D : Drafts} {F : Facts} {a b : Address} {s t : Store} {f : Field} {v : Value}
  {h : Hint} {fields : List (Field × Hint)} {xs : List Value} {form : Form} {args : Arguments}
  {rest : List Value}

/-! ## Forms of their own -/

/-- A value, or a new literal for what is not there. -/
theorem leads_orNone (hv : F.Gives (.maybe (.node .expr)) v) :
    Leads D F (orNone v) D fun w => [(.node .expr, w)] := by
  rw [orNone]
  split
  · exact leads_newNone
  · next hne =>
    refine leads_return fun e he => ?_
    obtain rfl := List.mem_singleton.mp he
    exact gives_of_maybe hv hne

/-- The fields of a subscript. -/
theorem leads_fillSubscript
    (hargs : ∀ f ∈ [Field.value, .index, .lower, .upper, .step],
      F.Gives (.maybe (.node .expr)) (args.get f)) :
    Leads (D.start a fields) F (fillSubscript a args)
      (D.start a (putAll [(.value, .node .expr), (.index, .node .expr), (.lower, .node .expr),
        (.upper, .node .expr), (.step, .node .expr)] fields)) fun _ => [] := by
  have hone : ∀ {fields F'} f, (∀ e ∈ F, e ∈ F') → f ∈ [Field.value, .index, .lower, .upper, .step] →
      Leads (D.start a fields) F' (do setField a f (← orNone (args.get f)))
        (D.start a (put f (.node .expr) fields)) fun _ => [] := by
    intro fields F' f hF hf
    have hlists : f ≠ .nodes ∧ f ≠ .ops := by
      constructor
      · rintro rfl
        exact absurd hf (by decide)
      · rintro rfl
        exact absurd hf (by decide)
    refine (leads_orNone ((hargs f hf).mono hF)).bind fun w => ?_
    exact leads_setField hlists (Facts.gives_of_mem (by simp))
  refine (hone .value (by simp) (by simp)).bind fun _ => ?_
  refine (hone .index (by simp) (by simp)).bind fun _ => ?_
  refine (hone .lower (by simp) (by simp)).bind fun _ => ?_
  refine (hone .upper (by simp) (by simp)).bind fun _ => ?_
  refine (hone .step (by simp) (by simp)).bind fun _ => ?_
  exact leads_pure _ (by simp)

/-- What is known of an identifier. -/
def identifierHints : List (Field × Hint) :=
  put .type (.exactly .anyType) (put .name .text typeHints)

theorem leads_fillIdentifier (hargs : Places F args) (ha : F.Gives (.node .node) (.ref a))
    (hname : F.Gives .text (args.get .name)) :
    Leads (D.start a []) F (fillIdentifier a args) (D.start a identifierHints) fun _ => [] := by
  refine (leads_startType hargs ha).bind fun _ => ?_
  refine (leads_setField (by decide) hname.append).bind fun _ => ?_
  refine (leads_newType (by decide)).bind fun v => ?_
  exact leads_setField (by decide) (Facts.gives_of_mem (by simp))

/-- What is known of a node of which only parent and place are special. -/
def plainHints (form : Form) : List (Field × Hint) :=
  put .kind (.member .kind) (form.fillOrder.foldl (keepHint form) (formHints form))

theorem leads_giveKind : Leads (D.start a fields) F (giveKind a form)
    (D.start a (put .kind (.member .kind) fields)) fun _ => [] :=
  leads_setField (by decide) fun _ _ _ => rfl

theorem leads_fillPlain (hargs : Fits F form args) (ha : F.Gives (.node .node) (.ref a)) :
    Leads (D.start a []) F (fillPlain a form args) (D.start a (plainHints form)) fun _ => [] := by
  refine (leads_startForm hargs.toPlaces ha).bind fun _ => ?_
  exact (leads_keepAll hargs.append).bind fun _ => leads_giveKind

theorem run_plainField_of_get? {n : Node} {w : Value} (hn : s.node? b = some n)
    (hw : n.get? f = some w) : run (plainField (.ref b) f) s = .ok w := by
  simp only [plainField, run_bind, run_node?, Store.nodeOf?, hn, ok_bind, hw, run_pure]

/-- The name of what is called. A function has the name of its prototype. -/
theorem leads_calledName {fn : Value} (hD : ∀ b, b ≠ a → D b = none)
    (ha : (.exactly .functionCall, .ref a) ∈ F)
    (hfn : F.Gives (.either .text (.node .functionDef)) fn) :
    Leads (D.start a fields) F (look (calledName fn)) (D.start a fields) fun v => [(.text, v)] := by
  refine leads_look fun s v hs hF hrun e he => ?_
  obtain rfl := List.mem_singleton.mp he
  -- Neither a function nor a prototype is the call.
  have hcall : s.formOf? (.ref a) = some .functionCall := of_decide_eq_true (hF _ ha)
  have hother : ∀ {b : Address} {g : Form}, s.isForm (.ref b) g = true →
      Form.isA .functionCall g = false → D.start a fields b = none := by
    intro b g hb hg
    have hne : b ≠ a := by
      rintro rfl
      obtain ⟨f, hf, hfg⟩ := Store.isForm_iff.mp hb
      rw [hcall] at hf
      cases hf
      rw [hg] at hfg
      cases hfg
    rw [Drafts.start_of_ne _ _ hne, hD b hne]
  have hkept : ∀ f : Form, (f.isA .functionDef = true →
      (.prototype, .node .functionPrototype) ∈ f.kept ∧
        f.computed? .name = some [.prototype, .name]) ∧
      (f.isA .functionPrototype = true → (.name, .text) ∈ f.kept) := by
    intro f
    cases f <;> decide
  simp only [calledName, run_bind, run_isA, ok_bind, run_ite, run_pure] at hrun
  split at hrun
  · next hdef =>
    cases fn with
    | ref b =>
      obtain ⟨n, hn, hisA⟩ := Store.isForm_ref.mp hdef
      obtain ⟨hproto, hcomputed⟩ := (hkept n.form).1 hisA
      obtain ⟨p, hp, hpform⟩ := hs.get?_of_kept (hother hdef (by decide)) hn hproto
      cases p with
      | ref c =>
        obtain ⟨m, hm, hmisA⟩ := Store.isForm_ref.mp hpform
        obtain ⟨w, hw, htext⟩ :=
          hs.get?_of_kept (hother hpform (by decide)) hm ((hkept m.form).2 hmisA)
        have hname : run (field (.ref b) .name) s = .ok w := by
          simp only [field, computedPath?, run_bind, run_node?, Store.nodeOf?, hn, ok_bind,
            run_pure, Option.bind_some, hcomputed, follow, run_plainField_of_get? hn hp,
            run_plainField_of_get? hm hw]
        cases hname.symm.trans hrun
        exact htext
      | _ => exact absurd hpform (by simp [Hint.meets, Store.isForm, Store.formOf?, Store.nodeOf?])
    | _ => exact absurd hdef (by simp [Store.formOf?, Store.nodeOf?])
  · next hdef =>
    cases hrun
    have hmeets := hfn s hs.shared hF
    simp only [Hint.loose, Hint.meets, Bool.or_eq_true] at hmeets
    rcases hmeets with htext | hform
    · exact htext
    · exact absurd hform hdef

/-! ## Copies that constructors make -/

/-- A finished node gets another name. -/
theorem rename_sound (hs : Sound D s) (hfinished : D b = none)
    (hname : ∀ n, s.node? b = some n → .name ∈ n.form.kept.map Prod.fst ∧
      ∀ h, (.name, h) ∈ n.form.kept → h = .text) (x : String) :
    Sound D (s.updateNode b fun n => n.set .name (.text x)) := by
  rw [Store.updateNode]
  cases hn : s.node? b with
  | none => exact hs
  | some n =>
    have hget : ∀ g, g ≠ .name → (n.set .name (.text x)).get? g = n.get? g := fun g hg => by
      rw [Node.get?_set, if_neg hg]
    have htargets : ∀ c ∈ (Cell.node (n.set .name (.text x))).targets,
        c ∈ (Cell.node n).targets := by
      intro c hc
      rcases Cell.mem_targets_set hc with hc | hc
      · exact hc
      · cases hc
    have hnodes := hget .nodes (by decide)
    have hops := hget .ops (by decide)
    have hcell := Store.node?_eq_some.mp hn
    refine hs.update hn rfl (fun w hw => hnodes.trans hw) (fun _ _ => rfl) ?_ ?_ ?_ ?_ ?_ ?_ ?_ ?_
    · intro e he
      by_cases hne : e.1 = .name
      · refine ⟨.text x, by rw [hne, Node.get?_set, if_pos rfl], ?_⟩
        rw [Drafts.promised, hfinished, Option.getD_none] at he
        rw [(hname n hn).2 e.2 (hne ▸ (List.mem_filter.mp he).1)]
        rfl
      · obtain ⟨w, hw, hmeets⟩ := hs.typed b n hn e he
        exact ⟨w, (hget e.1 hne).trans hw, hmeets⟩
    · exact fun c hc => hs.closed b _ hcell c (htargets c hc)
    · exact fun w hw => hs.signs b n w hn (hops ▸ hw)
    · exact fun w hw hw' => hs.apart b b n n w hn hn (hnodes ▸ hw) (hops ▸ hw')
    · exact fun c k w _ hk hw => hs.apart b c n k w hn hk (hnodes ▸ hw)
    · exact fun c k w _ hk hw hw' => hs.apart c b k n w hk hn hw (hops ▸ hw')
    · exact fun hmem => ⟨hfinished, fun c hc => (hs.body b hmem).2 _ hcell c (htargets c hc)⟩
    · intro g hg hnone
      refine (hget g ?_).trans (hs.lacking b n g hn hg hnone)
      rintro rfl
      rw [hfinished] at hnone
      exact hnone (hname n hn).1

/-- A class without a body gets a copy of the shared one, under a name of its own. -/
theorem classBody_sound (hs : Sound D s) (hbody : s.isForm (args.get .body) .block = true)
    (h : classBody args s = (.ok v, t)) : Sound D t ∧ s.Extends t ∧ t.isForm v .block = true := by
  rw [classBody] at h
  split at h
  · next hshared =>
    obtain ⟨body, s₁, hcopy, hrest⟩ := andThen_eq_ok.mp h
    obtain ⟨name, s₂, hlook, hrest⟩ := andThen_eq_ok.mp hrest
    have hlt : ∀ b ∈ Shared.bodyCells, b < s.cells.size := fun b hb =>
      Nat.lt_of_not_le fun hle => absurd hb (hs.not_mem_bodyCells hle)
    obtain ⟨hs₁, hext₁, -, hwhere, hmeets⟩ := copy_sound hs
      (fun b c hb hc => (hs.body b hb).2 c hc) (fun b hb => ⟨hlt b hb, (hs.body b hb).1⟩)
      (fun b hb => by cases hb; decide) hcopy
    have hblock : s.formOf? (.ref Shared.classBody) = some .block := hs.shared.forms _ _ rfl
    have hform := of_decide_eq_true (hmeets (.exactly .block) (decide_eq_true hblock))
    obtain ⟨-, hs₂, hext₂⟩ := look_inv hs₁ hlook
    obtain ⟨b, rfl, -⟩ := Store.ref_of_formOf? hform
    obtain ⟨_, s₃, hset, hpure⟩ := andThen_eq_ok.mp hrest
    cases hset
    cases hpure
    have hfinished : D b = none := by
      rcases hwhere with heq | ⟨c, heq, hle⟩
      · cases heq
        exact (hs.body _ (by decide)).1
      · cases heq
        exact hs.fresh b hle
    have hform₂ := hext₂.forms _ _ hform
    have hname : ∀ n, s₂.node? b = some n → .name ∈ n.form.kept.map Prod.fst ∧
        ∀ h, (.name, h) ∈ n.form.kept → h = .text := by
      intro n hn
      obtain ⟨k, hk, hkform⟩ := Store.formOf?_eq_some.mp hform₂
      rw [Store.cellOf?, Store.node?_eq_some.mp hn] at hk
      cases hk
      have hall : ∀ e ∈ Form.kept .block, e.1 = .name → e.2 = .text := by decide
      rw [hkform]
      exact ⟨by decide, fun h hh => hall _ hh rfl⟩
    have hext₃ := extends_setField (s := s₂) (a := b) (f := .name) (.text (name ++ "_body")) (by decide)
    refine ⟨rename_sound hs₂ hfinished hname _, hext₁.trans (hext₂.trans hext₃), ?_⟩
    exact Store.isForm_iff.mpr ⟨_, hext₃.forms _ _ hform₂, by decide⟩
  · cases h
    exact ⟨hs, .refl s, hbody⟩

/-- What is known of a package. -/
def packageHints : List (Field × Hint) :=
  put .packages (.items .node) (put .modules (.items .node) (put .name .text containerHints))

/-- A store that still has all cells of an older one. -/
def Older (s u : Store) : Prop :=
  s.cells.size ≤ u.cells.size ∧ ∀ b, b < s.cells.size → u.cell? b = s.cell? b

/-- A part of a package is a copy. What it copies is older than the package. -/
theorem copyPart_sound {s u t : Store} {k : Hint} (hs : Sound .none s)
    (hu : Sound (Drafts.none.start s.nextAddress fields) u) (hold : Older s u)
    (hf : f ≠ .nodes ∧ f ≠ .ops) (hv : k.loose.meets u v = true) (hheld : s.holds v = true)
    (h : (do setField s.nextAddress f (← copy v)) u = ((.ok (), t) : Except Fault Unit × Store)) :
    Sound (Drafts.none.start s.nextAddress (put f k fields)) t ∧ u.Extends t ∧ Older s t := by
  obtain ⟨w, u₁, hcopy, hset⟩ := andThen_eq_ok.mp h
  have hclosed : ∀ b c, b < s.cells.size → u.cell? b = some c → ∀ x ∈ c.targets,
      x < s.cells.size := by
    intro b c hb hc
    rw [hold.2 b hb] at hc
    exact hs.closed b c hc
  obtain ⟨hu₁, hext, hcells, -, hmeets⟩ := copy_sound hu hclosed
    (fun b hb => ⟨lt_of_lt_of_le hb hold.1, Drafts.start_of_ne _ _ (Nat.ne_of_lt hb)⟩)
    (fun b hb => by rw [hb] at hheld; exact of_decide_eq_true hheld) hcopy
  have hfact : Facts.Hold [(k, w)] u₁ := by
    exact List.forall_mem_singleton.mpr (hmeets k hv)
  obtain ⟨ht, -, hext'⟩ := leads_setField hf (Facts.gives_of_mem (List.mem_singleton_self _))
    u₁ () t hu₁ hfact hset
  have hold₁ : Older s u₁ :=
    ⟨hold.1.trans hext.size, fun b hb => (hcells b (lt_of_lt_of_le hb hold.1)).trans (hold.2 b hb)⟩
  obtain ⟨hle, hcells'⟩ := spares_setField (le_refl s.nextAddress) f w u₁ () t hset hold₁.1
  exact ⟨ht, hext.trans hext', hle, fun b hb => (hcells' b hb).trans (hold₁.2 b hb)⟩

theorem spares_startContainer {name : Value} (hparent : args.get .parent = .none) :
    Spares a (startContainer a args name) := by
  refine (spares_startNode (le_refl a) hparent).bind fun _ => ?_
  refine Spares.bind ?_ fun _ => spares_updateNode (le_refl a) _
  exact spares_new_bind _ fun _ _ => spares_pure _

/-- The store in which a constructor fills its node, and what is known there. -/
theorem startFill (form : Form) (hs : Sound .none s) (hF : F.Hold s) :
    Sound (Drafts.none.start s.nextAddress []) (s.push (.node ⟨form, 0, []⟩)) ∧
      Facts.Hold (F ++ [(.exactly form, .ref s.nextAddress)]) (s.push (.node ⟨form, 0, []⟩)) := by
  obtain ⟨hs₁, hexact⟩ := startDraft hs form
  refine ⟨hs₁, (hF.extends (Store.extends_push s _)).append fun e he => ?_⟩
  obtain rfl := List.mem_singleton.mp he
  exact decide_eq_true hexact

/-- A package is filled. -/
theorem fillPackage_sound (hs : Sound .none s) (hform : form.isA .nodeList = true)
    (hargs : Places F args) (hF : F.Hold s) (hparent : args.get .parent = .none)
    (hname : F.Gives .text (args.get .name)) (hmodules : F.Gives (.items .node) (args.get .modules))
    (hpackages : F.Gives (.items .node) (args.get .packages))
    (h : fillPackage s.nextAddress args (s.push (.node ⟨form, 0, []⟩)) = (.ok (), t)) :
    Sound (Drafts.none.start s.nextAddress packageHints) t ∧
      (s.push (.node ⟨form, 0, []⟩)).Extends t ∧ Older s t := by
  obtain ⟨hs₁, hF₁⟩ := startFill form hs hF
  have hext₁ := Store.extends_push s (.node ⟨form, 0, []⟩)
  obtain ⟨_, s₂, hstart, hrest⟩ := andThen_eq_ok.mp h
  obtain ⟨_, s₃, hset, hrest⟩ := andThen_eq_ok.mp hrest
  obtain ⟨w, s₄, hcopy, hrest⟩ := andThen_eq_ok.mp hrest
  obtain ⟨_, s₅, hset', hrest⟩ := andThen_eq_ok.mp hrest
  -- The container and its name.
  obtain ⟨hs₂, -, hext₂⟩ := leads_startContainer hargs.append
    (List.mem_append_right _ (List.mem_singleton_self _)) hform (fun _ _ _ => rfl) _ () s₂ hs₁ hF₁
    hstart
  obtain ⟨hs₃, -, hext₃⟩ := leads_setField (by decide) hname.append s₂ () s₃ hs₂
    (hF₁.extends hext₂) hset
  have hold₃ : Older s s₃ := by
    have hpush : Older s (s.push (.node ⟨form, 0, []⟩)) :=
      ⟨hext₁.size, fun b hb => Store.cell?_push_of_lt s _ b hb⟩
    obtain ⟨hle₂, hcells₂⟩ := spares_startContainer hparent _ () s₂ hstart hpush.1
    obtain ⟨hle₃, hcells₃⟩ := spares_setField (le_refl s.nextAddress) _ _ s₂ () s₃ hset hle₂
    exact ⟨hle₃, fun b hb => (hcells₃ b hb).trans ((hcells₂ b hb).trans (hpush.2 b hb))⟩
  -- The copies.
  have hitems := fun {v : Value} (hv : F.Gives (.items .node) v) =>
    And.intro (hv s hs.shared hF) (Hint.holds_of_meets (hv s hs.shared hF))
  have hext := hext₁.trans (hext₂.trans hext₃)
  obtain ⟨hs₅, hext₅, hold₅⟩ := copyPart_sound hs hs₃ hold₃ (by decide)
    (Hint.meets_extends hext (hitems hmodules).1) (hitems hmodules).2
    (andThen_eq_ok.mpr ⟨w, s₄, hcopy, hset'⟩)
  obtain ⟨ht, hext₆, hold₆⟩ := copyPart_sound hs hs₅ hold₅ (by decide)
    (Hint.meets_extends (hext.trans hext₅) (hitems hpackages).1) (hitems hpackages).2 hrest
  exact ⟨ht, hext₂.trans (hext₃.trans (hext₅.trans hext₆)), hold₆⟩

/-! ## Every constructor -/

/-- The forms that are filled in a way of their own. -/
def special : List Form :=
  [.place, .withItem, .listType, .tupleType, .setType, .dictType, .nodeList, .block, .moduleRoot,
   .arguments, .package, .program, .parenthesizedExpr, .identifier, .variableUse, .argument,
   .functionCall, .classDefStmt, .caseStmt, .subscriptExpr, .compareOp]

/-- What is known of a node after its constructor has filled it. -/
def filledHints (form : Form) : List (Field × Hint) :=
  let kind := put .kind (.member .kind)
  match form with
  | .place | .withItem | .listType | .tupleType | .setType | .dictType =>
    form.fillOrder.foldl (keepHint form) []
  | .nodeList | .block | .arguments => containerHints
  | .moduleRoot => kind containerHints
  | .package => packageHints
  | .program => put .target (.node .target) packageHints
  | .parenthesizedExpr => kind (put .value (.node .expr) (put .type .anything typeHints))
  | .identifier => identifierHints
  | .variableUse => put .type (.node .dataType) identifierHints
  | .argument => kind (form.fillOrder.foldl (keepHint form) identifierHints)
  | .functionCall =>
    kind (putAll [(.args, .items .node), (.type, .node .dataType)] (put .fn .text typeHints))
  | .classDefStmt => put .body (.node .block) (plainHints form)
  | .subscriptExpr =>
    kind (putAll [(.value, .node .expr), (.index, .node .expr), (.lower, .node .expr),
      (.upper, .node .expr), (.step, .node .expr)] (putAll baseHints []))
  | .compareOp => kind (comparisonHints typeHints)
  | _ =>
    if form.isA .binaryOp then operatorHints typeHints
    else if form.isA .unaryOp then
      kind (putAll [(.opCode, .text), (.operand, .node .dataType)] typeHints)
    else if form ∈ collections then collectionHints form (put .ref .text typeHints)
    else if form.isA .literal then literalHints form
    else plainHints form

/-- What a constructor fills in is all that the form promises. -/
theorem covers_filled (form : Form) : covers form (filledHints form) = true := by
  cases form <;> decide

/-- The arguments of a constructor are as it expects them. A default that is a list may be
the list of a container by now, so of defaults only what stays true is known. -/
structure Meets (s : Store) (form : Form) (args : Arguments) : Prop where
  expected : ∀ p ∈ form.signature.2, ∃ v, args.lookup p.field = some v ∧
    ∀ h, form.expects p.field = some h → h.loose.meets s v = true
  given : ∀ p ∈ form.signature.2, p.defaultValue = none →
    ∀ h, form.expects p.field = some h → h.meets s (args.get p.field) = true
  others : ∀ f, (∀ p ∈ form.signature.2, p.field ≠ f) → args.lookup f = none

/-- What is known of the arguments of a constructor. -/
def argFacts (form : Form) (args : Arguments) : Facts :=
  form.signature.2.filterMap fun p => (form.expects p.field).map fun h => (h, args.get p.field)

namespace Meets

theorem meets (hargs : Meets s form args)
    (hparam : form.signature.2.any (fun p => p.field = f) = true)
    (hexpects : form.expects f = some h) : h.loose.meets s (args.get f) = true := by
  obtain ⟨p, hp, hf⟩ := List.any_eq_true.mp hparam
  obtain rfl := of_decide_eq_true hf
  obtain ⟨v, hv, hmeets⟩ := hargs.expected p hp
  rw [Arguments.get, hv]
  exact hmeets h hexpects

theorem hold (hargs : Meets s form args) : (argFacts form args).Hold s := by
  intro e he
  obtain ⟨p, hp, hmap⟩ := List.mem_filterMap.mp he
  obtain ⟨h, hh, rfl⟩ := Option.map_eq_some_iff.mp hmap
  exact hargs.meets (List.any_eq_true.mpr ⟨p, hp, decide_eq_true rfl⟩) hh

theorem gives (args : Arguments) {p : Param} (hp : p ∈ form.signature.2)
    (hh : form.expects p.field = some h) : (argFacts form args).Gives h (args.get p.field) :=
  Facts.gives_of_mem (List.mem_filterMap.mpr ⟨p, hp, by rw [hh]; rfl⟩)

theorem fits (hargs : Meets s form args) : Fits (argFacts form args) form args := by
  have hall : ∀ form : Form, form.signature.2.all fun p =>
      (p.field ≠ .loc ∨ form.expects p.field = some (.node .place)) ∧
      (p.field ≠ .parent ∨ form.expects p.field = some (.maybe .growing)) := by
    intro form
    cases form <;> decide
  have hparam := fun p hp => of_decide_eq_true (List.all_eq_true.mp (hall form) p hp)
  refine ⟨⟨?_, ?_⟩, fun p hp _ h hh => gives args hp hh, fun f hf => ?_⟩
  · by_cases hloc : ∃ p ∈ form.signature.2, p.field = .loc
    · obtain ⟨p, hp, hloc⟩ := hloc
      have hgives := gives args hp (((hparam p hp).1).resolve_left (not_not_intro hloc))
      obtain ⟨v, hv, -⟩ := hargs.expected p hp
      rw [hloc] at hv hgives
      rw [Arguments.get, hv] at hgives
      rw [hv]
      exact hgives
    · rw [hargs.others .loc fun p hp heq => hloc ⟨p, hp, heq⟩]
      exact Facts.gives_shared rfl
  · by_cases hparent : ∃ p ∈ form.signature.2, p.field = .parent
    · obtain ⟨p, hp, hparent⟩ := hparent
      have hgives := gives args hp
        (((hparam p hp).2).resolve_left (not_not_intro hparent))
      rw [hparent] at hgives
      exact hgives
    · rw [Arguments.get, hargs.others .parent fun p hp heq => hparent ⟨p, hp, heq⟩]
      exact Facts.gives_shared rfl
  · rw [Arguments.get, hargs.others f hf]
    rfl

end Meets

/-- The way most forms are filled. -/
def fillOrdinary (a : Address) (form : Form) (args : Arguments) : Build Unit := do
  if form.isA .binaryOp then
    startType a args
    fillOperator a (operatorCode form args) (args.get .lhs) (args.get .rhs)
  else if form.isA .unaryOp then
    startType a args
    setFields a [(.opCode, operatorCode form args), (.operand, args.get .operand)]
    giveKind a form
  else if form.isA .literal then fillLiteral a form args
  else fillPlain a form args

theorem fill_ordinary (h : form ∉ special) (a : Address) (args : Arguments) (rest : List Value) :
    fill a form args rest = fillOrdinary a form args := by
  unfold fill
  split
  all_goals first | exact absurd h (by decide) | rfl

theorem filled_ordinary (h : form ∉ special) : filledHints form =
    if form.isA .binaryOp then operatorHints typeHints
    else if form.isA .unaryOp then
      put .kind (.member .kind) (putAll [(.opCode, .text), (.operand, .node .dataType)] typeHints)
    else if form ∈ collections then collectionHints form (put .ref .text typeHints)
    else if form.isA .literal then literalHints form
    else plainHints form := by
  unfold filledHints
  split
  all_goals first | exact absurd h (by decide) | rfl

/-- Whether a constructor has a parameter of which it expects this. -/
def takes (form : Form) (f : Field) (h : Hint) : Bool :=
  form.signature.2.any (fun p => p.field = f) && decide (form.expects f = some h) &&
    decide (f ≠ .loc)

theorem Fits.gives_of_takes (hargs : Fits F form args) (htakes : takes form f h = true) :
    F.Gives h (args.get f) := by
  simp only [takes, Bool.and_eq_true, decide_eq_true_eq] at htakes
  exact hargs.gives htakes.1.1 htakes.1.2 htakes.2

theorem Meets.meets_of_takes (hargs : Meets s form args) (htakes : takes form f h = true) :
    h.loose.meets s (args.get f) = true := by
  simp only [takes, Bool.and_eq_true, decide_eq_true_eq] at htakes
  exact hargs.meets htakes.1.1 htakes.1.2

/-- Whether a constructor has a parameter without default of which it expects this. -/
def requires (form : Form) (f : Field) (h : Hint) : Bool :=
  form.signature.2.any (fun p => p.field = f && p.defaultValue.isNone) &&
    decide (form.expects f = some h)

theorem Meets.meets_of_requires (hargs : Meets s form args) (hrequires : requires form f h = true) :
    h.meets s (args.get f) = true := by
  simp only [requires, Bool.and_eq_true, decide_eq_true_eq, List.any_eq_true] at hrequires
  obtain ⟨⟨p, hp, rfl, hnone⟩, hh⟩ := hrequires
  exact hargs.given p hp (Option.isNone_iff_eq_none.mp hnone) h hh

theorem takes_operands (form : Form) : form ∈ special ∨ form.isA .node = true ∧
    (form.isA .binaryOp = true →
      takes form .lhs (.node .dataType) = true ∧ takes form .rhs (.node .dataType) = true) ∧
    (form.isA .unaryOp = true → takes form .operand (.node .dataType) = true) := by
  cases form <;> decide

theorem operatorCode_table (form : Form) : form ∈ special ∨
    (form.isA .binaryOp || form.isA .unaryOp) = false ∨
    takes form .opCode .text = true ∧ (form.lent? .opCode).isNone = true ∨
    form.signature.2.all (fun p => p.field ≠ .opCode) = true ∧
      Hint.isText ((form.lent? .opCode).getD .none) = true := by
  cases form <;> decide

/-- The code of an operator is a text, given or lent. -/
theorem Meets.gives_operatorCode (hargs : Meets s form args) (hspecial : form ∉ special)
    (hform : (form.isA .binaryOp || form.isA .unaryOp) = true) :
    (argFacts form args).Gives .text (operatorCode form args) := by
  have hcode := ((operatorCode_table form).resolve_left hspecial).resolve_left (by simp [hform])
  rw [operatorCode]
  rcases hcode with ⟨htakes, hnone⟩ | ⟨hall, htext⟩
  · have hgives := hargs.fits.gives_of_takes htakes
    rw [Arguments.get] at hgives
    cases hlookup : args.lookup .opCode with
    | some v => rwa [hlookup] at hgives
    | none =>
      rw [hlookup] at hgives
      rwa [Option.isNone_iff_eq_none.mp hnone]
  · rw [hargs.others .opCode fun p hp => of_decide_eq_true (List.all_eq_true.mp hall p hp)]
    exact Facts.gives_shared htext

theorem leads_store : Leads D F store D fun _ => [] := by
  intro s r t hs _ h
  cases h
  exact ⟨hs, nofun, .refl s⟩

theorem leads_fillOrdinary (hspecial : form ∉ special) (hcollection : form ∉ collections)
    (hargs : Fits F form args)
    (hcode : (form.isA .binaryOp || form.isA .unaryOp) = true →
      F.Gives .text (operatorCode form args)) (ha : F.Gives (.node .node) (.ref a)) :
    Leads (D.start a []) F (fillOrdinary a form args) (D.start a (filledHints form))
      fun _ => [] := by
  obtain ⟨-, hbinary, hunary⟩ := (takes_operands form).resolve_left hspecial
  rw [filled_ordinary hspecial, fillOrdinary]
  split
  · next hform =>
    refine (leads_startType hargs.toPlaces ha).bind fun _ => ?_
    rw [fillOperator]
    refine leads_store.bind fun s => ?_
    exact leads_fillBinary _ (hcode (by simp [hform])).append.append
      (hargs.gives_of_takes (hbinary hform).1).append.append
      (hargs.gives_of_takes (hbinary hform).2).append.append
  · split
    · next hform =>
      refine (leads_startType hargs.toPlaces ha).bind fun _ => ?_
      refine (leads_setFields ?_).bind fun _ => leads_giveKind
      refine .cons ⟨rfl, ⟨nofun, nofun⟩, (hcode (by simp [hform])).append⟩
        (.cons ⟨rfl, ⟨nofun, nofun⟩, ?_⟩ .nil)
      exact (hargs.gives_of_takes (hunary hform)).append
    · split
      · next hform => exact leads_fillLiteral hform hcollection hargs ha
      · exact leads_fillPlain hargs ha

theorem leads_classBody (hbody : F.Gives (.node .block) (args.get .body)) :
    Leads D F (classBody args) D fun v => [(.node .block, v)] := by
  intro s v t hs hF h
  obtain ⟨ht, hext, hblock⟩ := classBody_sound hs (hbody s hs.shared hF) h
  exact ⟨ht, fun e he => by obtain rfl := List.mem_singleton.mp he; exact hblock, hext⟩

theorem leads_checkCase (args : Arguments) : Leads D F (checkCase args) D fun _ => [] := by
  rw [checkCase]
  split
  · exact (fails_fail _).leads
  · split
    · exact (fails_fail _).leads
    · exact leads_pure _ (by simp)

/-- What a field holds is there, if there is such a field. -/
theorem leads_field? (v : Value) (f : Field) :
    Leads D F (look (field? v f)) D fun w? => w?.toList.map fun w => (.anything, w) := by
  refine leads_look fun s w? hs _ hrun e he => ?_
  obtain ⟨w, hw, rfl⟩ := List.mem_map.mp he
  obtain rfl := Option.mem_toList.mp hw
  rw [run_field?] at hrun
  split at hrun
  · next u hu =>
    cases hrun
    exact holds_field hs hu
  · split at hrun
    · cases hrun
    · cases hrun

/-- The forms whose constructors read or copy what is among their arguments. -/
def reading : List Form :=
  [.package, .program, .compareOp]

theorem leads_fillSpecial (hspecial : form ∈ special) (hreading : form ∉ reading)
    (hD : ∀ b, b ≠ a → D b = none) (hargs : Fits F form args)
    (hrest : ∀ v ∈ rest, F.Gives (.node .node) v) (ha : (.exactly form, .ref a) ∈ F) :
    Leads (D.start a []) F (fill a form args rest) (D.start a (filledHints form)) fun _ => [] := by
  have hnode : form.isA .node = true → F.Gives (.node .node) (.ref a) := gives_node_of_mem ha
  have hcontainer := fun (hform : form.isA .nodeList = true)
      (htext : F.Gives .text (args.get .name)) =>
    leads_startContainer (D := D) hargs.toPlaces ha hform htext
  cases form
  case place | withItem | listType | tupleType | setType | dictType => exact leads_keepAll hargs
  case nodeList | block =>
    exact (hcontainer rfl (hargs.gives_of_takes rfl)).forget
  case moduleRoot =>
    exact (hcontainer rfl (hargs.gives_of_takes rfl)).bind fun _ => leads_giveKind
  case arguments =>
    refine (hcontainer rfl (hargs.gives_of_takes rfl)).bind fun _ => ?_
    exact leads_forM_append (Facts.gives_of_mem (by simp)) fun v hv => (hrest v hv).append
  case parenthesizedExpr =>
    refine (leads_startType hargs.toPlaces (hnode rfl)).bind fun _ => ?_
    refine (leads_newType (by decide)).bind fun other => ?_
    refine (leads_field? _ _).bind fun type? => ?_
    refine (leads_setField (h := .anything) (by decide) ?_).bind fun _ => ?_
    · cases type? with
      | none => exact (Facts.gives_of_mem (h := .exactly .dataType) (by simp)).anything
      | some w => exact Facts.gives_of_mem (by simp)
    · refine (leads_setField (by decide) (hargs.gives_of_takes rfl).append.append.append.append).bind
        fun _ => leads_giveKind
  case identifier =>
    exact leads_fillIdentifier hargs.toPlaces (hnode rfl) (hargs.gives_of_takes rfl)
  case variableUse =>
    refine (leads_fillIdentifier hargs.toPlaces (hnode rfl) (hargs.gives_of_takes rfl)).bind
      fun _ => ?_
    exact leads_setField (by decide) (hargs.gives_of_takes rfl).append
  case argument =>
    refine (leads_fillIdentifier hargs.toPlaces (hnode rfl) (hargs.gives_of_takes rfl)).bind
      fun _ => ?_
    exact (leads_keepAll hargs.append).bind fun _ => leads_giveKind
  case functionCall =>
    refine (leads_startType hargs.toPlaces (hnode rfl)).bind fun _ => ?_
    refine (leads_calledName hD (by simp [ha]) (hargs.gives_of_takes rfl).append).bind fun v => ?_
    refine (leads_setField (h := .text) (by decide) (Facts.gives_of_mem (by simp))).bind
      fun _ => ?_
    refine (leads_setFields ?_).bind fun _ => leads_giveKind
    refine .cons ⟨rfl, ⟨nofun, nofun⟩, ?_⟩ (.cons ⟨rfl, ⟨nofun, nofun⟩, ?_⟩ .nil)
    · exact (hargs.gives_of_takes (h := .items .dataType) rfl).loose.append.append.append
    · exact (hargs.gives_of_takes rfl).append.append.append
  case classDefStmt =>
    refine (leads_fillPlain hargs (hnode rfl)).bind fun _ => ?_
    refine (leads_classBody (hargs.gives_of_takes rfl).append).bind fun v => ?_
    exact leads_setField (by decide) (Facts.gives_of_mem (by simp))
  case caseStmt =>
    exact (leads_fillPlain hargs (hnode rfl)).bind fun _ => leads_checkCase args
  case subscriptExpr =>
    refine (leads_startNode hargs.toPlaces (hnode rfl)).bind fun _ => ?_
    refine (leads_fillSubscript fun f hf => ?_).bind fun _ => leads_giveKind
    have htakes : ∀ f ∈ [Field.value, .index, .lower, .upper, .step],
        takes .subscriptExpr f (.node .expr) = true ∨
          takes .subscriptExpr f (.maybe (.node .expr)) = true := by decide
    rcases htakes f hf with hf | hf
    · exact fun s hs hF =>
        Hint.meets_of_implies (by decide) ((hargs.gives_of_takes hf).append s hs hF)
    · exact (hargs.gives_of_takes hf).append
  all_goals first | exact absurd hspecial (by decide) | exact absurd hreading (by decide)

/-- Forms whose constructors read nodes among their arguments do not join a parent first. -/
theorem parent_of_reading (hargs : Meets s form args) (hform : form ∈ reading ++ collections) :
    args.get .parent = .none := by
  have hall : ∀ form ∈ reading ++ collections,
      form.signature.2.all (fun p => p.field ≠ .parent) = true := by decide
  rw [Arguments.get, hargs.others .parent fun p hp =>
    of_decide_eq_true (List.all_eq_true.mp (hall form hform) p hp)]
  rfl

theorem Older.cellOf? {s u : Store} (hold : Older s u) {c : Cell} (h : s.cellOf? v = some c) :
    u.cellOf? v = some c := by
  cases v with
  | ref b => exact (hold.2 b (Array.getElem?_eq_some_iff.mp h).1).trans h
  | _ => cases h

theorem Older.allItems {s u : Store} (hold : Older s u) {p q : Value → Bool}
    (hpq : ∀ x, p x = true → q x = true) (h : s.allItems p v = true) : u.allItems q v = true := by
  obtain ⟨c, xs, hc, hxs, h⟩ := Store.allItems_iff.mp h
  exact Store.allItems_iff.mpr ⟨c, xs, hold.cellOf? hc, hxs, fun x hx => hpq x (h x hx)⟩

/-- A node with a type is started, and what was there is as it was. -/
theorem startType_older (hs : Sound .none s) (hF : F.Hold s) (hargs : Places F args)
    (hform : form.isA .node = true) (hparent : args.get .parent = .none)
    (h : startType s.nextAddress args (s.push (.node ⟨form, 0, []⟩)) = (.ok (), t)) :
    Sound (Drafts.none.start s.nextAddress typeHints) t ∧
      (s.push (.node ⟨form, 0, []⟩)).Extends t ∧ Older s t := by
  obtain ⟨hs₁, hF₁⟩ := startFill form hs hF
  obtain ⟨ht, -, hext⟩ := leads_startType hargs.append
    (gives_node_of_mem (List.mem_append_right _ (List.mem_singleton_self _)) hform) _ () t hs₁ hF₁ h
  obtain ⟨hle, hcells⟩ := spares_startType (le_refl s.nextAddress) hparent _ () t h
    (Store.extends_push s _).size
  exact ⟨ht, hext, hle, fun b hb => (hcells b hb).trans (Store.cell?_push_of_lt s _ b hb)⟩

/-- A literal that is a collection is filled. -/
theorem fillLiteral_sound (hs : Sound .none s) (hform : form ∈ collections)
    (hargs : Meets s form args)
    (h : fillLiteral s.nextAddress form args (s.push (.node ⟨form, 0, []⟩)) = (.ok (), t)) :
    Sound (Drafts.none.start s.nextAddress (collectionHints form (put .ref .text typeHints))) t ∧
      (s.push (.node ⟨form, 0, []⟩)).Extends t := by
  rw [fillLiteral_eq] at h
  obtain ⟨_, s₂, hstart, hrest⟩ := andThen_eq_ok.mp h
  obtain ⟨ref, s₃, href, hrest₂⟩ := andThen_eq_ok.mp hrest
  obtain ⟨_, s₄, hset, hfill⟩ := andThen_eq_ok.mp hrest₂
  rw [if_pos hform] at hfill
  have hnode : ∀ form ∈ collections, form.isA .node = true ∧
      requires form .elements ((form.expects .elements).getD .absent) = true := by decide
  obtain ⟨hs₂, hext₂, hold₂⟩ := startType_older hs hargs.hold hargs.fits.toPlaces
    (hnode form hform).1 (parent_of_reading hargs (List.mem_append_right _ hform)) hstart
  obtain ⟨hs₃, hF₃, hext₃⟩ := leads_literalRef (F := []) s₂ ref s₃ hs₂ nofun href
  obtain ⟨hs₄, -, hext₄⟩ := leads_setField (h := .text) (by decide)
    (Facts.gives_of_mem (List.mem_singleton_self _)) s₃ () s₄ hs₃ hF₃ hset
  have hold₄ : Older s s₄ := by
    obtain ⟨hle₃, hcells₃⟩ := spares_literalRef s₂ ref s₃ href hold₂.1
    obtain ⟨hle₄, hcells₄⟩ := spares_setField (le_refl s.nextAddress) _ _ s₃ () s₄ hset hle₃
    exact ⟨hle₄, fun b hb => (hcells₄ b hb).trans ((hcells₃ b hb).trans (hold₂.2 b hb))⟩
  have hext := (Store.extends_push s (.node ⟨form, 0, []⟩)).trans
    (hext₂.trans (hext₃.trans hext₄))
  have helements := hargs.meets_of_requires (hnode form hform).2
  have hmeets : ((form.expects .elements).getD .absent).meets s₄ (args.get .elements) = true := by
    have hhints : ∀ form ∈ collections, form.expects .elements = some (.members .literal) ∨
        form.expects .elements = some (.entries .literal) := by decide
    rcases hhints form hform with hh | hh
    · rw [hh] at helements ⊢
      exact hold₄.allItems (fun _ hx => hext.isForm hx) helements
    · rw [hh] at helements ⊢
      exact Hint.meets_extends (h := .entries .literal) hext helements
  -- What is among the elements was there before the literal.
  obtain ⟨ht, hext₅⟩ := fillCollection_sound hform hs₄ hmeets (fun c hc fields b hb => by
    refine Drafts.start_of_ne _ _ (Nat.ne_of_lt ?_)
    have hheld := Hint.holds_of_meets (Hint.meets_loose helements)
    cases helem : args.get .elements with
    | ref e =>
      rw [helem] at hc hheld
      rw [Store.cellOf?, hold₄.2 e (of_decide_eq_true hheld)] at hc
      exact hs.closed e c hc b hb
    | _ => simp [helem, Store.cellOf?] at hc) hfill
  exact ⟨ht, hext₂.trans (hext₃.trans (hext₄.trans hext₅))⟩

/-- A chain of comparisons is filled. -/
theorem fillCompare_sound (hs : Sound .none s) (hargs : Meets s .compareOp args)
    (h : fill s.nextAddress .compareOp args [] (s.push (.node ⟨.compareOp, 0, []⟩)) = (.ok (), t)) :
    Sound (Drafts.none.start s.nextAddress (filledHints .compareOp)) t ∧
      (s.push (.node ⟨.compareOp, 0, []⟩)).Extends t := by
  obtain ⟨_, s₂, hstart, hrest⟩ := andThen_eq_ok.mp h
  obtain ⟨_, s₃, hcompare, hkind⟩ := andThen_eq_ok.mp hrest
  obtain ⟨hs₂, hext₂, hold⟩ := startType_older hs hargs.hold hargs.fits.toPlaces (by decide)
    (parent_of_reading hargs (by decide)) hstart
  have hext := (Store.extends_push s _).trans hext₂
  have hcomparators := hargs.meets_of_takes (f := .comparators) (h := .items .dataType) rfl
  have hops := hargs.meets_of_requires (f := .ops) (h := .words) rfl
  obtain ⟨hs₃, hext₃⟩ := fillComparison_sound hs₂ (hold.allItems (fun _ hx => hx) hops)
    (Hint.meets_extends (h := .items .dataType) hext hcomparators)
    (hext.isForm (hargs.meets_of_takes (f := .left) (h := .node .dataType) rfl))
    (fun fields b hb => by
      refine Drafts.start_of_ne _ _ (Nat.ne_of_lt ?_)
      have hheld := Hint.holds_of_meets hcomparators
      rw [hb] at hheld
      exact of_decide_eq_true hheld) hcompare
  obtain ⟨ht, -, hext₄⟩ := leads_giveKind (F := []) s₃ () t hs₃ nofun hkind
  exact ⟨ht, hext₂.trans (hext₃.trans hext₄)⟩

/-- A package or a program is filled. -/
theorem fillProgram_sound (hs : Sound .none s) (hform : form = .package ∨ form = .program)
    (hargs : Meets s form args)
    (h : fill s.nextAddress form args rest (s.push (.node ⟨form, 0, []⟩)) = (.ok (), t)) :
    Sound (Drafts.none.start s.nextAddress (filledHints form)) t ∧
      (s.push (.node ⟨form, 0, []⟩)).Extends t := by
  have htakes : takes form .name .text = true ∧ takes form .modules (.items .moduleRoot) = true ∧
      takes form .packages (.items .package) = true ∧ form ∈ reading ++ collections ∧
      form.isA .nodeList = true := by
    rcases hform with rfl | rfl <;> decide
  obtain ⟨hname, hmodules, hpackages, hreading, hisA⟩ := htakes
  have hpackage : ∀ {u}, fillPackage s.nextAddress args (s.push (.node ⟨form, 0, []⟩)) =
      (.ok (), u) → Sound (Drafts.none.start s.nextAddress packageHints) u ∧
        (s.push (.node ⟨form, 0, []⟩)).Extends u ∧ Older s u :=
    fillPackage_sound hs hisA hargs.fits.toPlaces hargs.hold (parent_of_reading hargs hreading)
      (hargs.fits.gives_of_takes hname) (hargs.fits.gives_of_takes hmodules).loose
      (hargs.fits.gives_of_takes hpackages).loose
  rcases hform with rfl | rfl
  · obtain ⟨ht, hext, -⟩ := hpackage h
    exact ⟨ht, hext⟩
  · obtain ⟨_, u, hfill, hrest⟩ := andThen_eq_ok.mp h
    obtain ⟨hu, hext, hold⟩ := hpackage hfill
    have htarget := hargs.meets_of_takes (f := .target) (h := .node .target) rfl
    have hall := (Store.extends_push s (.node ⟨.program, 0, []⟩)).trans hext
    obtain ⟨ht, hext', -⟩ := copyPart_sound (k := .node .target) hs hu hold (by decide)
      (hall.isForm htarget) (Hint.holds_of_meets (h := .node .target) htarget) hrest
    exact ⟨ht, hext.trans hext'⟩

/-- Every constructor fills its node as its form says. -/
theorem fill_sound (hs : Sound .none s) (hargs : Meets s form args)
    (hrest : ∀ v ∈ rest, s.isForm v .node = true)
    (h : fill s.nextAddress form args rest (s.push (.node ⟨form, 0, []⟩)) = (.ok (), t)) :
    Sound (Drafts.none.start s.nextAddress (filledHints form)) t ∧
      (s.push (.node ⟨form, 0, []⟩)).Extends t := by
  by_cases hreading : form ∈ reading
  · simp only [reading, List.mem_cons, List.not_mem_nil, or_false] at hreading
    rcases hreading with rfl | rfl | rfl
    · exact fillProgram_sound hs (.inl rfl) hargs h
    · exact fillProgram_sound hs (.inr rfl) hargs h
    · exact fillCompare_sound hs hargs h
  · let F := argFacts form args ++ about (.node .node) rest
    have hF : F.Hold s := hargs.hold.append (hold_about hrest)
    obtain ⟨hs₁, hF₁⟩ := startFill form hs hF
    have ha : (.exactly form, .ref s.nextAddress) ∈ F ++ [(.exactly form, .ref s.nextAddress)] :=
      List.mem_append_right _ (List.mem_singleton_self _)
    have hfits := hargs.fits.append (G := about (.node .node) rest).append
      (G := [(.exactly form, .ref s.nextAddress)])
    by_cases hspecial : form ∈ special
    · have hnodes : ∀ v ∈ rest, Facts.Gives (F ++ [(.exactly form, .ref s.nextAddress)])
          (.node .node) v := fun v hv =>
        Facts.gives_of_mem (List.mem_append_left _ (List.mem_append_right _
          (List.mem_map_of_mem hv)))
      obtain ⟨ht, -, hext⟩ := leads_fillSpecial (D := .none) hspecial hreading (fun _ _ => rfl)
        hfits hnodes ha _ () t hs₁ hF₁ h
      exact ⟨ht, hext⟩
    · rw [fill_ordinary hspecial] at h
      by_cases hcollection : form ∈ collections
      · have hforms : ∀ form ∈ collections, form.isA .binaryOp = false ∧
            form.isA .unaryOp = false ∧ form.isA .literal = true := by decide
        obtain ⟨hbinary, hunary, hliteral⟩ := hforms form hcollection
        simp only [fillOrdinary, hbinary, hunary, hliteral, if_true, Bool.false_eq_true,
          if_false] at h
        simp only [filled_ordinary hspecial, hbinary, hunary, if_pos hcollection,
          Bool.false_eq_true, if_false]
        exact fillLiteral_sound hs hcollection hargs h
      · obtain ⟨hnode, -⟩ := (takes_operands form).resolve_left hspecial
        obtain ⟨ht, -, hext⟩ := leads_fillOrdinary (D := .none) hspecial hcollection hfits
          (fun hcode => (hargs.gives_operatorCode hspecial hcode).append.append)
          (gives_node_of_mem ha hnode) _ () t hs₁ hF₁ h
        exact ⟨ht, hext⟩

end Build

end ProgramTree
