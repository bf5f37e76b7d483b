/-
What full outlines are made of.

A document of a full outline stands as the content of a node, under a key, or by itself
(`Stand`). A node is one entry that has a content and metadata; all other entries are labels,
and hold what is outlined in turn. Lists are contents. Only the rules for comparisons, packages
and managed contexts put a list under a label, so there is none where no such node is inside
(`Outlined`).

Each rule keeps to this, given that what is inside the node is outlined so (`Draws`).
-/
import ProgramTree.Proofs.Drawings.Entries
import ProgramTree.Proofs.Looking.Within
import ProgramTree.Proofs.Outlines.Simplified
import ProgramTree.Proofs.Terms.Shape

namespace ProgramTree.Drawing

open Look Outline

/-! ## Documents of full outlines -/

/-- Where a document stands in an outline: as the content of a node, by itself, or under a key. -/
inductive Stand
  | content
  | item
  | entry (key : String)

/-- Whether a key can be that of a label or of a node. -/
def isLabel (key : String) : Bool :=
  key ≠ "" && key ≠ "metadata"

/-- The metadata of a node: scalars under fixed keys. -/
structure IsMetadata (m : Doc) : Prop where
  eq : ∃ line col comment ref kind : Doc, m = .record [("loc", .record [("line", line),
    ("col", col)]), ("comment", comment), ("ref", ref), ("kind", kind)] ∧
      ∀ d ∈ [line, col, comment, ref, kind], d.isScalar = true

/-- Documents as they stand in full outlines. A list is a content, or stands elsewhere if this is
allowed. -/
inductive Outlined (lists : Bool) : Stand → Doc → Prop
  | scalar {stand : Stand} {d : Doc} (h : d.isScalar = true) : Outlined lists stand d
  | list {stand : Stand} {xs : List Doc} (h : stand = .content ∨ lists = true)
      (hx : ∀ x ∈ xs, Outlined lists .item x) : Outlined lists stand (.list xs)
  | entries {stand : Stand} {es : List (String × Doc)} (hk : ∀ e ∈ es, isLabel e.1 = true)
      (hv : ∀ e ∈ es, Outlined lists (.entry e.1) e.2) : Outlined lists stand (.record es)
  | node {key : String} {c m : Doc} (hc : Outlined lists .content c) (hm : IsMetadata m) :
      Outlined lists (.entry key) (.record [("content", c), ("metadata", m)])

/-- An outline of one entry, which is a node unless it holds nothing to be outlined. A simplified
node is its content, so that lists stand under labels. -/
inductive Rooted (lists b : Bool) : Doc → Prop
  | null : Rooted lists b .null
  | word (key word : String) (hk : isLabel key = true) : Rooted lists b (.single key (.text word))
  | node {key : String} {c m : Doc} (hk : isLabel key = true) (hc : Outlined lists .content c)
      (hm : IsMetadata m) :
      Rooted lists b (.single key (.record [("content", c), ("metadata", m)]))
  | simple {key : String} {c : Doc} (hb : b = true) (hl : lists = true) (hk : isLabel key = true)
      (hc : Outlined lists .content c) : Rooted lists b (.single key c)

variable {lists b : Bool} {stand : Stand} {x : Doc} {s : Store} {d : Describe} {v w : Value}
  {n : Node} {f : Field} {isBlock : Bool} {key word : String} {h : Hint} {es : List (String × Doc)}
  {P : String × Doc → Prop} {fields : List (String × Field)}

/-- What stands by itself can stand anywhere. -/
theorem Outlined.moved (h : Outlined lists .item x) (stand : Stand) : Outlined lists stand x := by
  cases h with
  | scalar h => exact .scalar h
  | list h hx => exact .list (.inr (h.resolve_left nofun)) hx
  | entries hk hv => exact .entries hk hv

/-- An entry of an outline. -/
def IsEntry (lists : Bool) (e : String × Doc) : Prop :=
  isLabel e.1 = true ∧ Outlined lists (.entry e.1) e.2

theorem isEntry_mk (hk : isLabel key = true) (hx : Outlined lists (.entry key) x) :
    IsEntry lists (key, x) := ⟨hk, hx⟩

theorem isEntry_single (hk : isLabel key = true) (hx : Outlined lists (.entry key) x) :
    ∀ e ∈ [(key, x)], IsEntry lists e :=
  List.forall_mem_singleton.mpr (isEntry_mk hk hx)

theorem outlined_record (h : ∀ e ∈ es, IsEntry lists e) : Outlined lists stand (.record es) :=
  .entries (fun e he => (h e he).1) fun e he => (h e he).2

theorem Rooted.outlined (h : Rooted lists b x) : Outlined lists .item x := by
  cases h with
  | null => exact .scalar rfl
  | word key word hk =>
    exact outlined_record (isEntry_single hk (.scalar rfl))
  | node hk hc hm => exact outlined_record (isEntry_single hk (.node hc hm))
  | simple _ hl hk hc =>
    refine outlined_record (isEntry_single hk ?_)
    cases hc with
    | scalar h => exact .scalar h
    | list _ hx => exact .list (.inr hl) hx
    | entries hk hv => exact .entries hk hv

/-- The entries of an outline that is spread over the one around it. -/
theorem Outlined.isEntry (h : Outlined lists .item x) (hes : x.entries = .ok es) :
    ∀ e ∈ es, IsEntry lists e := by
  cases h with
  | scalar h =>
    cases x with
    | null | bool | int | float | text => cases hes
    | _ => cases h
  | list h hx => cases hes
  | entries hk hv =>
    rw [Doc.entries_record] at hes
    cases hes
    exact fun e he => ⟨hk e he, hv e he⟩

theorem forall_mem_put (hnew : P (key, x)) (h : ∀ e ∈ es, P e) : ∀ e ∈ Doc.put key x es, P e := by
  induction es with
  | nil => exact List.forall_mem_singleton.mpr hnew
  | cons e rest ih =>
    obtain ⟨he, hrest⟩ := List.forall_mem_cons.mp h
    rw [Doc.put]
    split
    · exact List.forall_mem_cons.mpr ⟨hnew, hrest⟩
    · exact List.forall_mem_cons.mpr ⟨he, ih hrest⟩

theorem forall_mem_merge {es fs : List (String × Doc)} (hes : ∀ e ∈ es, P e) (hfs : ∀ e ∈ fs, P e) :
    ∀ e ∈ Doc.merge es fs, P e := by
  induction fs generalizing es with
  | nil => exact hes
  | cons f rest ih =>
    obtain ⟨hf, hrest⟩ := List.forall_mem_cons.mp hfs
    exact ih (forall_mem_put hf hes) hrest

theorem forall_mem_append {es fs : List (String × Doc)} (hes : ∀ e ∈ es, P e)
    (hfs : ∀ e ∈ fs, P e) : ∀ e ∈ es ++ fs, P e :=
  List.forall_mem_append.mpr ⟨hes, hfs⟩

/-! ## Keys -/

theorem isLabel_of_isKey (h : isKey isBlock key = true) : isLabel key = true := by
  have hne : ∀ other, isKey isBlock other = false → key ≠ other := by
    rintro other hother rfl
    rw [hother] at h
    cases h
  have hempty := hne "" (by cases isBlock <;> decide)
  have hmetadata := hne "metadata" (by cases isBlock <;> decide)
  simp [isLabel, hempty, hmetadata]

theorem isLabel_of_isPartKey (h : isPartKey key = true) : isLabel key = true := by
  have hne : ∀ other, isPartKey other = false → key ≠ other := by
    rintro other hother rfl
    rw [hother] at h
    cases h
  simp [isLabel, hne "" (by decide), hne "metadata" (by decide)]

/-- A look finds a key under which a node can stand. -/
abbrev Keyed (s : Store) (look : Look String) : Prop :=
  Yields s look fun key => isLabel key = true

/-- A key that begins as the key of a node that is no block. -/
theorem isLabel_of_word (h : isKey false key = true) : isLabel key = true :=
  isLabel_of_isKey h

theorem isEntry_countedFrom {key : Nat → String} {xs : List Doc}
    (hkey : ∀ i, isPartKey (key i) = true) (h : ∀ y ∈ xs, Outlined lists .item y) (i : Nat) :
    ∀ e ∈ countedFrom key i xs, IsEntry lists e := by
  induction xs generalizing i with
  | nil => nofun
  | cons y rest ih =>
    obtain ⟨hy, hrest⟩ := List.forall_mem_cons.mp h
    exact List.forall_mem_cons.mpr ⟨⟨isLabel_of_isPartKey (hkey i), hy.moved _⟩, ih hrest (i + 1)⟩

/-! ## Parts of outlines -/

/-- A walk over a value gives what its work gives for what is inside. -/
theorem yields_forEach_within {β : Type} {Q : β → Prop} {body : Value → Look β}
    (h : ∀ u, s.Within w u → Yields s (body u) Q) :
    Yields s (forEach w body) fun ys => ∀ y ∈ ys, Q y := by
  have hwalk : Follows s (forEach w body) (forEach w body)
      (List.Forall₂ fun a _ => Q a ∧ True) :=
    .same_bind fun slots hslots => .walkFrom slots (fun slot hslot u hu a ha =>
      ⟨a, ha, h u (within_of_slots hslots hslot hu) a ha, trivial⟩) 0
  intro ys hys
  obtain ⟨zs, -, hall⟩ := hwalk ys hys
  exact ((List.forall₂_and_left ys zs).mp hall).1

/-- Descriptions that outline what is inside a value as it stands in outlines. -/
structure Draws (s : Store) (lists b : Bool) (d : Describe) (v : Value) : Prop where
  agrees : Agrees s d
  simple : b = true → lists = true
  outline : ∀ w, s.Within v w → Yields s (d.outline b w) (Outlined lists .item)
  full : ∀ w, s.Within v w → Yields s (d.outline false w) (Outlined lists .item)

section

variable (hd : Draws s lists b d v)

include hd

theorem Draws.within (h : s.Within v w) : Draws s lists b d w :=
  ⟨hd.agrees, hd.simple, fun u hu => hd.outline u (h.trans hu),
    fun u hu => hd.full u (h.trans hu)⟩

omit hd in
/-- What a field holds is inside the node. -/
theorem yields_field (hf : f.isInner = true) : Yields s (field v f) (s.Within v) :=
  fun _ hw => within_of_field hf hw

omit hd in
theorem yields_field_bind {β : Type} {Q : β → Prop} {body : Value → Look β} (hf : f.isInner = true)
    (h : ∀ w, s.Within v w → Yields s (body w) Q) : Yields s (field v f >>= body) Q :=
  (yields_field hf).bind h

theorem yields_fieldOutline (hf : f.isInner = true) :
    Yields s (d.fieldOutline b v f) (Outlined lists .item) :=
  yields_field_bind hf hd.outline

theorem yields_part (hk : isLabel key = true) (hf : f.isInner = true) :
    Yields s (part d b v key f) (IsEntry lists) :=
  (yields_fieldOutline hd hf).bind fun _ hx => yields_pure ⟨hk, hx.moved _⟩

/-- Whether a field can be shown under a key. -/
def isPart (e : String × Field) : Bool :=
  isLabel e.1 && e.2.isInner

theorem yields_parts (hfields : ∀ e ∈ fields, isPart e = true) :
    Yields s (parts d b v fields) fun es => ∀ e ∈ es, IsEntry lists e := by
  induction fields with
  | nil => exact yields_pure (by simp)
  | cons e rest ih =>
    obtain ⟨he, hrest⟩ := List.forall_mem_cons.mp hfields
    rw [isPart, Bool.and_eq_true] at he
    refine (yields_part hd he.1 he.2).bind fun a ha => (ih hrest).bind fun es hes => ?_
    exact yields_pure (List.forall_mem_cons.mpr ⟨ha, hes⟩)

theorem yields_partIfTrue (hk : isLabel key = true) (hf : f.isInner = true) :
    Yields s (partIfTrue d b v key f) fun es => ∀ e ∈ es, IsEntry lists e :=
  yields_after fun _ => yields_after fun _ => .ite
    ((yields_part hd hk hf).bind fun _ ha => yields_pure (List.forall_mem_singleton.mpr ha))
    (yields_pure (by simp))

theorem yields_partsIfTrue (hfields : ∀ e ∈ fields, isPart e = true) :
    Yields s (partsIfTrue d b v fields) fun es => ∀ e ∈ es, IsEntry lists e := by
  induction fields with
  | nil => exact yields_pure (by simp)
  | cons e rest ih =>
    obtain ⟨he, hrest⟩ := List.forall_mem_cons.mp hfields
    rw [isPart, Bool.and_eq_true] at he
    refine (yields_partIfTrue hd he.1 he.2).bind fun es hes => (ih hrest).bind fun fs hfs => ?_
    exact yields_pure (forall_mem_append hes hfs)

theorem yields_partOrEmpty (hf : f.isInner = true) :
    Yields s (partOrEmpty d b v key f) fun e => e.1 = key ∧ Outlined lists .item e.2 := by
  refine yields_field_bind hf fun w hw => ?_
  cases w with
  | none => exact yields_pure ⟨rfl, outlined_record (by simp)⟩
  | _ => exact (hd.outline _ hw).bind fun _ hx => yields_pure ⟨rfl, hx⟩

omit hd in
theorem isEntry_of_eq {e : String × Doc} (h : e.1 = key ∧ Outlined lists .item e.2)
    (hk : isLabel key = true) : IsEntry lists e :=
  ⟨h.1 ▸ hk, h.2.moved _⟩

omit hd in
theorem outlined_snd {e : String × Doc} (h : e.1 = key ∧ Outlined lists .item e.2) :
    Outlined lists stand e.2 :=
  h.2.moved _

theorem yields_partIfNodes (hk : isLabel key = true) (hf : f.isInner = true) :
    Yields s (partIfNodes d b v key f) fun es => ∀ e ∈ es, IsEntry lists e := by
  refine yields_field_bind hf fun w hw => yields_after fun _ => yields_after fun _ => ?_
  refine .ite ((hd.outline w hw).bind fun x hx => ?_) (yields_pure (by simp))
  exact yields_pure (isEntry_single hk (hx.moved _))

theorem yields_bound (hk : isLabel key = true) (hf : f.isInner = true) :
    Yields s (bound d b v key f) fun es => ∀ e ∈ es, IsEntry lists e :=
  yields_after fun _ => yields_after fun _ => .ite (yields_pure (by simp))
    ((yields_part hd hk hf).bind fun _ ha => yields_pure (List.forall_mem_singleton.mpr ha))

omit hd in
theorem yields_entries (h : Outlined lists .item x) :
    Yields s (ofOutcome x.entries) fun es => ∀ e ∈ es, IsEntry lists e := by
  intro es hes
  rw [run_ofOutcome] at hes
  exact h.isEntry hes

theorem yields_spread (hf : f.isInner = true) :
    Yields s (spread d b v f) fun es => ∀ e ∈ es, IsEntry lists e :=
  (yields_fieldOutline hd hf).bind fun _ hx => yields_entries hx

theorem yields_outlines (hw : s.Within v w) :
    Yields s (forEach w (d.outline b)) fun xs => ∀ x ∈ xs, Outlined lists .item x :=
  yields_forEach_within fun u hu => hd.outline u (hw.trans hu)

/-- The outlines of the items of a value, as a list where a list may stand. -/
theorem yields_listed (hw : s.Within v w) (h : stand = .content ∨ lists = true) :
    Yields s (listed d b w) (Outlined lists stand) :=
  (yields_outlines hd hw).bind fun _ hx => yields_pure (.list h hx)

end

theorem yields_formName (hn : s.nodeOf? v = some n) :
    Yields s (Label.formName v) fun form => form = n.form.name := by
  intro form hform
  simp only [Label.formName, run_bind, run_node?, hn, ok_bind, run_pure, Option.map_some,
    Option.getD_some] at hform
  exact (Except.ok.inj hform).symm

/-- A simplified outline shows the number of its node after the key. -/
theorem keyed_numbered (hk : isKey false key = true) : Keyed s (numbered b v key) :=
  .ite (yields_after fun _ => yields_pure (isLabel_of_word (isKey_append
    (isKey_around hk) _))) (yields_pure (isLabel_of_word hk))

theorem keyed_hashed (hk : isKey isBlock key = true) : Keyed s (hashed b v key) :=
  .ite (yields_after fun _ => yields_pure (isLabel_of_isKey (isKey_around hk)))
    (yields_pure (isLabel_of_isKey hk))

theorem keyed_caseKey (isDefault : Bool) : Keyed s (caseKey b isDefault v) := by
  refine .ite (yields_after fun id => yields_pure ?_) (yields_pure ?_)
  · cases isDefault with
    | true => exact isLabel_of_word (isKey_around (by decide))
    | false => exact isLabel_of_word (isKey_around (by decide))
  · cases isDefault with
    | true => decide
    | false => decide

/-! ## Nodes -/

section Nodes

variable (hs : Built s) (hd : Draws s lists b d v) (hv : IsNode s isBlock v n)

include hs hd hv

/-- A content under the key of a node. -/
theorem yields_prepare {c : Doc} (hk : isLabel key = true) (hc : Outlined lists .content c) :
    Yields s (prepare d b v key c) (Rooted lists b) := by
  cases b with
  | true => exact yields_pure (.simple rfl (hd.simple rfl) hk hc)
  | false =>
    exact Yields.bind (P := IsMetadata) (fun _ hm => ⟨exists_of_metadata hs hd.agrees hv hm⟩)
      fun _ hm => yields_pure (.node hk hc hm)

/-- Labels under the key of a node. -/
theorem yields_entered (hk : isLabel key = true) (hes : ∀ e ∈ es, IsEntry lists e) :
    Yields s (prepare d b v key (.record es)) (Rooted lists b) :=
  yields_prepare hs hd hv hk (outlined_record hes)

/-- A scalar field under the key of a node. -/
theorem yields_shown (hk : isLabel key = true) (hkept : (f, h) ∈ n.form.kept)
    (hh : scalarHint h = true) (hc : n.form.computed? f = none) :
    Yields s (do prepare d b v key (← d.doc (← field v f))) (Rooted lists b) := by
  refine Yields.bind (P := fun w => run (field v f) s = .ok w) (fun _ hw => hw) fun w hw => ?_
  refine Yields.bind (P := fun x => x.isScalar = true) (fun x hx => ?_) fun x hx =>
    yields_prepare hs hd hv hk (.scalar hx)
  exact isScalar_of_field hs hd.agrees hv.node hkept hh hc hw hx

/-! ## Types and data -/

theorem yields_dataType (hkept : (.name, h) ∈ n.form.kept) (hh : scalarHint h = true)
    (hc : n.form.computed? .name = none) : Yields s (dataType d b v) (Rooted lists b) :=
  yields_after fun _ => yields_shown hs hd hv
    (isLabel_of_word (isKey_around (by decide))) hkept hh hc

theorem yields_identifier (hname : isKey false (n.form.name.map Char.toUpper) = true)
    (hkept : (.name, h) ∈ n.form.kept) (hh : scalarHint h = true)
    (hc : n.form.computed? .name = none) : Yields s (identifier d b v) (Rooted lists b) := by
  refine (yields_formName hv.node).bind fun _ hform => yields_after fun _ => ?_
  subst hform
  exact yields_shown hs hd hv
    (isLabel_of_word (isKey_append (isKey_around hname) _)) hkept hh hc

theorem yields_literal (hkept : (.value, h) ∈ n.form.kept) (hh : scalarHint h = true) :
    Yields s (literal d b v) (Rooted lists b) :=
  yields_after fun _ => yields_after fun _ => yields_shown hs hd hv
    (isLabel_of_word (isKey_append (isKey_around (by decide)) _)) hkept hh
    (computed?_eq_none _ (by decide))

theorem yields_worded (hword : isKey false word = true) (hkept : (.value, h) ∈ n.form.kept)
    (hh : scalarHint h = true) : Yields s (worded word d b v) (Rooted lists b) :=
  yields_after fun _ => yields_shown hs hd hv
    (isLabel_of_word (isKey_around hword)) hkept hh
    (computed?_eq_none _ (by decide))

/-- A part of a pair of numbers, as plain data. -/
theorem yields_itemDoc {i : Int} (hi : i = 0 ∨ i = 1) (hkept : (.value, .pair) ∈ n.form.kept) :
    Yields s (do d.doc (← item (← field v .value) i)) fun x => x.isScalar = true := by
  intro x h
  rw [run_bind] at h
  obtain ⟨w, hw, h⟩ := bind_eq_ok.mp h
  obtain ⟨y, z, hy, hz, hsy, hsz⟩ := items_of_pair
    (hs.meets_of_field hv.node hkept (computed?_eq_none _ (by decide)) hw)
  rw [run_bind] at h
  obtain ⟨u, hu, hx⟩ := bind_eq_ok.mp h
  rcases hi with rfl | rfl
  · cases hy.symm.trans hu
    exact hd.agrees.doc _ _ hsy hx
  · cases hz.symm.trans hu
    exact hd.agrees.doc _ _ hsz hx

theorem yields_complex (hname : isKey false n.form.name = true)
    (hkept : (.value, .pair) ∈ n.form.kept) : Yields s (complex d b v) (Rooted lists b) := by
  have hrest : ∀ (text : String) (real imag : Doc), real.isScalar = true → imag.isScalar = true →
      Yields s (prepare d b v (n.form.name ++ ": " ++ text)
        (.record [("real", real), ("imag", imag)])) (Rooted lists b) :=
    fun _ _ _ hreal himag => yields_entered hs hd hv
      (isLabel_of_word (isKey_around hname))
      (List.forall_mem_cons.mpr ⟨isEntry_mk (by decide) (.scalar hreal),
        isEntry_single (by decide) (.scalar himag)⟩)
  have hparts := fun text => (yields_itemDoc hs hd hv (.inl rfl) hkept).bind fun real hreal =>
    (yields_itemDoc hs hd hv (.inr rfl) hkept).bind fun imag himag =>
      hrest text real imag hreal himag
  refine (yields_formName hv.node).bind fun _ hform => yields_after fun text => ?_
  subst hform
  simpa only [bind_assoc] using hparts text

/-! ## Arguments, selections and contexts -/

theorem yields_argument : Yields s (argument d b v) (Rooted lists b) :=
  yields_after fun _ => yields_after fun _ => yields_after fun _ =>
    (yields_field_bind rfl hd.full).bind fun _ hx =>
      yields_prepare hs hd hv (isLabel_of_word (isKey_append (isKey_append (isKey_append
        (isKey_around (by decide)) _) _) _)) (hx.moved _)

theorem yields_switch : Yields s (switch d b v) (Rooted lists b) := by
  refine (keyed_numbered (by decide)).bind fun _ hkey => yields_field_bind rfl fun w hw => ?_
  refine yields_after fun _ => ?_
  have hcases : ∀ i : Nat, Yields s (do d.outline b (← item w i)) (Outlined lists .item) :=
    fun i => Yields.bind (P := s.Within w) (fun _ hu => within_of_item hu) fun u hu =>
      hd.outline u (hw.trans hu)
  refine (yields_mapM hcases).bind fun _ hx => (yields_part hd (by decide) rfl).bind
    fun _ hvalue => yields_entered hs hd hv hkey ?_
  refine List.forall_mem_cons.mpr ⟨hvalue, isEntry_single (by decide) ?_⟩
  exact outlined_record (isEntry_countedFrom (fun _ => isPartKey_append (by decide) _) hx 0)

omit hs hv in
theorem yields_withItem : Yields s (withItem d b v) (Outlined lists .item) := by
  have hrest : ∀ key, isLabel key = true → Yields s (do
      let content := Doc.single key (← d.fieldOutline b v .contextExpr)
      return if b then content else .single "WithItem" content) (Outlined lists .item) := by
    refine fun key hkey => (yields_fieldOutline hd rfl).bind fun x hx => yields_pure ?_
    have hcontent {stand : Stand} : Outlined lists stand (.single key x) :=
      outlined_record (isEntry_single hkey (hx.moved _))
    cases b with
    | true => exact hcontent
    | false => exact outlined_record (isEntry_single (by decide) hcontent)
  refine yields_after fun _ => yields_after fun isTrue => ?_
  cases isTrue with
  | true =>
    exact yields_after fun _ => hrest _
      (isLabel_of_word (isKey_around (by decide)))
  | false => exact hrest _ (by decide)

omit hs hv in
/-- The items of a managed context stand in a list under a label, and it has no metadata. -/
theorem yields_withStmt (hlists : lists = true) :
    Yields s (withStmt d b v) (Outlined lists .item) :=
  yields_field_bind rfl fun _ hw => (yields_listed hd hw (.inr hlists)).bind fun _ hx =>
    (yields_part hd (by decide) rfl).bind fun _ hbody => yields_pure (outlined_record
      (isEntry_single (by decide) (outlined_record (List.forall_mem_cons.mpr
        ⟨isEntry_mk (by decide) hx, List.forall_mem_singleton.mpr hbody⟩))))

omit hs hd hv in
theorem keyed_classKey {word more : String} (hword : isKey false word = true) :
    Keyed s (classKey d v word more) :=
  fun _ hk => isLabel_of_word (isKey_of_classKey hword hk)

end Nodes

/-! ## Outlines of nodes -/

/-- The forms whose rules put a list under a label. -/
def listing : List Form :=
  [.compareOp, .package, .withStmt]

/-- What the rule of a form gives: an outline, and one node unless it is a managed context or an
item of one. -/
structure Framed (lists b : Bool) (g : Form) (x : Doc) : Prop where
  outlined : Outlined lists .item x
  rooted : g ≠ .withStmt → g ≠ .withItem → Rooted lists b x

/-- The rule of a form gives an outline at each node that it suits. -/
theorem yields_own {g : Form} {rule : Rule} (hs : Built s) (hd : Draws s lists b d v)
    (hg : Suited s v n g) (hrule : own? g = some rule)
    (hlists : g ∈ listing → lists = true) : Yields s (rule d b v) (Framed lists b g) := by
  have hn := hg.found
  have hv := hg.isNode
  have hkeyed : ∀ {look}, FindsKey s true look → Keyed s look := fun h k hk =>
    isLabel_of_isKey (h k hk)
  have hlabelled : takesLabel g = true → Yields s (label d v) fun k => isKey false k = true :=
    fun h => findsKey_label hn (hg.label h)
  have hroot : ∀ {y : Look Doc}, Yields s y (Rooted lists b) → Yields s y (Framed lists b g) :=
    fun h => h.mono fun _ hx => ⟨hx.outlined, fun _ _ => hx⟩
  have hnone : ∀ {y : Look Doc}, (∀ x, run y s ≠ .ok x) → Yields s y (Framed lists b g) :=
    fun h x hx => absurd hx (h x)
  have hlisted : ∀ {w}, g ∈ listing → s.Within v w → Yields s (listed d b w) (Outlined lists .item) :=
    fun hg hw => yields_listed hd hw (.inr (hlists hg))
  cases g <;> cases hrule
  case node => exact hroot (yields_pure .null)
  case functionPrototype => exact yields_fail _
  case withItem => exact (yields_withItem hd).mono fun _ hx => ⟨hx, fun _ h => absurd rfl h⟩
  case withStmt =>
    exact (yields_withStmt hd (hlists (by decide))).mono fun _ hx => ⟨hx, fun h => absurd rfl h⟩
  case exprType =>
    exact hroot (yields_after fun name => yields_pure (.word "Type" name (by decide)))
  case dataType =>
    cases hbare' : n.form.isBare with
    | true =>
      exact hnone (not_run_dataType (not_run_lacksField hs hn (hg.bare hbare').2))
    | false =>
      obtain ⟨_, hkept, hhint, hc⟩ := hg.exists_scalar .name (by decide) hbare' (by decide)
      exact hroot (yields_dataType hs hd ⟨hn, hg.node, hbare', hg.block⟩ hkept hhint hc)
  case literal =>
    rcases hg.scalar .value (by decide) (hv (by decide)).notBare with h | ⟨-, h⟩
    · obtain ⟨_, hkept, hhint, -⟩ := exists_of_keepsScalar h
      exact hroot (yields_literal hs hd (hv (by decide)) hkept hhint)
    · exact hnone (not_run_literal (not_run_lacksField hs hn h))
  case identifier =>
    obtain ⟨_, hkept, hhint, hc⟩ := hg.exists_scalar .name (by decide) (hv (by decide)).notBare
      (by decide)
    refine hroot (yields_identifier hs hd (hv (by decide)) ?_ hkept hhint hc)
    rw [map_toUpper_eq]
    exact hg.named rfl
  case literalString | literalUTF8String | literalUTF8Char | literalDate | literalTime
      | literalTimestamp | literalDateTime =>
    obtain ⟨_, hkept, hhint, -⟩ := hg.exists_scalar .value (by decide) (hv (by decide)).notBare
      (by decide)
    exact hroot (yields_worded hs hd (hv (by decide)) (by decide) hkept hhint)
  case literalComplex =>
    exact hroot (yields_complex hs hd (hv (by decide)) (hg.named rfl)
      (hg.kept _ (by decide)))
  all_goals
    replace hv := hv (by decide)
    refine hroot ?_
  case argument => exact yields_argument hs hd hv
  case switchStmt => exact yields_switch hs hd hv
  all_goals dsimp only [container, undefined, under, labelUnder, underOrEmpty, headed, bare,
    bareLabel, delete, unary, binary, boolean, augAssign, Outline.compare, call, function,
    yieldStmt, conditional, loop, asyncLoop, whileLoop, caseBranch, goto, throwStmt, guarded,
    clause, comprehension, collected, generator, classParts, classDecl, classDef, typeDecl,
    Outline.target, package, importedName, importNames, importFrom, subscript, fixed, countedKey,
    Doc.single]
  -- First what a rule looks at, one look after the other.
  all_goals with_reducible repeat' first
    | refine (yields_part hd (by decide) (by decide)).bind fun _ _ => ?_
    | refine (yields_parts hd (by decide)).bind fun _ _ => ?_
    | refine (yields_partsIfTrue hd (by decide)).bind fun _ _ => ?_
    | refine (yields_partOrEmpty hd (by decide)).bind fun _ _ => ?_
    | refine (yields_partIfNodes hd (by decide) (by decide)).bind fun _ _ => ?_
    | refine (yields_bound hd (by decide) (by decide)).bind fun _ _ => ?_
    | refine (yields_spread hd (by decide)).bind fun _ _ => ?_
    | refine (yields_fieldOutline hd (by decide)).bind fun _ _ => ?_
    | refine (yields_fieldOutline (hd.within (by assumption)) (by decide)).bind fun _ _ => ?_
    | refine (hd.outline _ (by assumption)).bind fun _ _ => ?_
    | refine (yields_entries (by assumption)).bind fun _ _ => ?_
    | refine (yields_outlines hd (by assumption)).bind fun _ _ => ?_
    | refine (hlisted (by decide) (by assumption)).bind fun _ _ => ?_
    | refine (yields_listed hd (by assumption) (.inl rfl)).bind fun _ _ => ?_
    | refine (keyed_numbered (by decide)).bind fun _ _ => ?_
    | refine (keyed_hashed (by assumption)).bind fun _ _ => ?_
    | refine (keyed_hashed (show isKey false _ = true by decide)).bind fun _ _ => ?_
    | refine (keyed_caseKey _).bind fun _ _ => ?_
    | refine (keyed_classKey (by decide)).bind fun _ _ => ?_
    | refine (hkeyed findsKey_blockKey).bind fun _ _ => ?_
    | refine (hkeyed findsKey_moduleKey).bind fun _ _ => ?_
    | refine (hlabelled (by decide)).bind fun _ _ => ?_ | refine yields_prepare hs hd hv ?_ ?_
    | rw [pure_bind] | refine yields_field_bind (by decide) fun _ _ => ?_
    | refine yields_after fun _ => ?_ | split
  -- Then the key that it makes, and the content.
  all_goals repeat' first
    | decide | exact .scalar rfl | exact List.forall_mem_nil _ | with_reducible first
      | assumption | exact isLabel_of_isKey (by assumption) | exact Outlined.moved (by assumption) _
      | exact outlined_snd (by assumption) | refine outlined_record ?_ | refine isLabel_of_word ?_
      | refine isKey_append ?_ _ | refine isPartKey_append ?_ _ | refine forall_mem_append ?_ ?_
      | refine forall_mem_merge ?_ ?_ | refine forall_mem_put ?_ ?_
      | refine isEntry_countedFrom (fun _ => ?_) (by assumption) _
      | refine List.forall_mem_cons.mpr ⟨?_, ?_⟩ | refine isEntry_of_eq (by assumption) ?_
      | refine isEntry_mk ?_ ?_

/-- A value and all that is inside it have no rule that puts a list under a label. -/
def Unlisted (s : Store) (v : Value) : Prop :=
  ∀ w, w = v ∨ s.Within v w → ∀ g ∈ listing, s.isForm w g = false

theorem Unlisted.within (h : Unlisted s v) (hw : s.Within v w) : Unlisted s w := fun u hu =>
  h u (.inr (hu.elim (fun heq => heq ▸ hw) hw.trans))

/-- An outline to some depth: it has no list under a label unless one is allowed, and it is one
node unless it is that of a managed context or of an item of one. -/
theorem yields_toDepth {display : Display} (hs : Built s) (depth : Nat) (opened : List Address)
    (v : Value) (hb : b = true → lists = true) (hlists : lists = true ∨ Unlisted s v) :
    Yields s ((Describe.toDepth display depth opened).outline b v) fun x =>
      Outlined lists .item x ∧
        (s.isForm v .withStmt = false → s.isForm v .withItem = false → Rooted lists b x) := by
  induction depth generalizing v b with
  | zero => exact yields_fail _
  | succ depth ih =>
    have hd : Draws s lists b (Describe.toDepth display depth opened) v :=
      ⟨agrees_toDepth hs depth opened, hb, fun w hw =>
        (ih w hb (hlists.imp_right fun h => h.within hw)).mono fun _ hx => hx.1, fun w hw =>
        (ih (b := false) w nofun (hlists.imp_right fun h => h.within hw)).mono fun _ hx => hx.1⟩
    refine Yields.bind (P := fun n => n = s.nodeOf? v) (fun n hn => ?_) fun n hn => ?_
    · rw [run_node?] at hn
      exact (Except.ok.inj hn).symm
    · subst hn
      cases hn : s.nodeOf? v with
      | none => exact fun _ h => absurd h Build.run_lacks_ne
      | some n =>
        have hform : ∀ g, s.isForm v g = n.form.isA g := fun g => by
          simp [Store.isForm, Store.formOf?, hn]
        show Yields s (ofNode _ b n v) _
        rcases exists_suited hn with ⟨g, rule, hg, hisA, hrule, heq⟩ | hnone
        · rw [heq]
          refine (yields_own hs hd hg hrule fun hmem => ?_).mono fun x hx =>
            ⟨hx.outlined, fun hstmt hitem => hx.rooted ?_ ?_⟩
          · refine hlists.resolve_right fun h => ?_
            rw [← hform, h v (.inl rfl) g hmem] at hisA
            cases hisA
          · rintro rfl
            rw [← hform, hstmt] at hisA
            cases hisA
          · rintro rfl
            rw [← hform, hitem] at hisA
            cases hisA
        · exact fun x hx => absurd hx (hnone _ b x)

end ProgramTree.Drawing
