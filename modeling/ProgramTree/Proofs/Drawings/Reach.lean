/-
What a drawing reaches.

An outline that is read through shows all its entries with metadata, wherever they stand
(`sightings`). A drawing looks at contents and at what labels hold. What stands in a list under a
label is aside, and a drawing declares exactly the entries that are not aside
(`drawing_reaches`). The arrow to an entry comes from an entry above it, so it is missing where
nothing above has metadata: under a managed context at the root.
-/
import ProgramTree.Proofs.Drawings.Agreement
import ProgramTree.Proofs.Drawings.Outlined

namespace ProgramTree.Drawing

open Look Outline

/-! ## Reading an outline through -/

/-- Whether a document stands as the content of a node. -/
def Stand.isContent : Stand → Bool
  | .content => true
  | _ => false

/-- An entry with metadata: the entries on the way to it, the last one first, and whether it
stands where no drawing looks. -/
structure Sighting where
  trail : List Entry
  isAside : Bool
  entry : Entry

mutual

/-- The entries with metadata in a document, in the order in which they are read. A list that is
no content stands aside. -/
def sights (trail : List Entry) (aside : Bool) (stand : Stand) : Doc → List Sighting
  | .dict es =>
    match stand with
    | .entry key =>
      if (Entry.mk key es).isDrawn then
        ⟨trail, aside, ⟨key, es⟩⟩ :: sightsInFields (⟨key, es⟩ :: trail) aside es
      else sightsInEntries (⟨key, es⟩ :: trail) aside es
    | _ => sightsInEntries trail aside es
  | .list xs => sightsInItems trail (aside || !stand.isContent) xs
  | .held _ d => sights trail aside stand d
  | _ => []

/-- The same in the items of a list. -/
def sightsInItems (trail : List Entry) (aside : Bool) : List Doc → List Sighting
  | [] => []
  | x :: rest => sights trail aside .item x ++ sightsInItems trail aside rest

/-- The same under the keys of a dictionary. -/
def sightsInEntries (trail : List Entry) (aside : Bool) : List (Doc × Doc) → List Sighting
  | [] => []
  | (.text key, d) :: rest =>
    sights trail aside (.entry key) d ++ sightsInEntries trail aside rest
  | (_, d) :: rest => sights trail true .item d ++ sightsInEntries trail aside rest

/-- The same in an entry that has metadata itself. What stands beside its content is aside. -/
def sightsInFields (trail : List Entry) (aside : Bool) : List (Doc × Doc) → List Sighting
  | [] => []
  | (.text key, d) :: rest =>
    (if key = "content" then sights trail aside .content d
      else sights trail true (.entry key) d) ++ sightsInFields trail aside rest
  | (_, d) :: rest => sights trail true .item d ++ sightsInFields trail aside rest

end

/-- All entries with metadata in an outline. -/
def sightings (outline : Doc) : List Sighting :=
  sights [] false .item outline

/-- An entry stands somewhere inside a document. -/
inductive Inside : Doc → Entry → Prop
  | here {es : List (Doc × Doc)} {i : Nat} {e : Entry} (h : e.At es i) : Inside (.dict es) e
  | value {es : List (Doc × Doc)} {key d : Doc} {e : Entry} (hmem : (key, d) ∈ es)
      (h : Inside d e) : Inside (.dict es) e
  | item {xs : List Doc} {x : Doc} {e : Entry} (hmem : x ∈ xs) (h : Inside x e) :
      Inside (.list xs) e
  | held {a : Address} {d : Doc} {e : Entry} (h : Inside d e) : Inside (.held a d) e

/-! ## The documents of an outline -/

variable {lists aside : Bool} {stand : Stand} {d m : Doc} {trail : List Entry} {key : String}
  {es : List (String × Doc)} {e : Entry}

/-- Labels over what can be drawn. -/
theorem nested_entries (hk : ∀ e ∈ es, isLabel e.1 = true) (hv : ∀ e ∈ es, e.2.Nested) :
    (Doc.record es).Nested := by
  refine .record (fun e he hempty => ?_) (fun e he hmeta => ?_) hv
  all_goals
    have hlabel := hk e he
  · rw [hempty] at hlabel
    cases hlabel
  · rw [hmeta] at hlabel
    cases hlabel

/-- Metadata have entries, which are labels over scalars. -/
theorem IsMetadata.exists_record (h : IsMetadata m) : ∃ fs : List (String × Doc),
    m = .record fs ∧ fs ≠ [] ∧ (∀ e ∈ fs, isLabel e.1 = true) ∧ ∀ e ∈ fs, e.2.isScalar = true ∨
      ∃ gs : List (String × Doc), e.2 = .record gs ∧ (∀ f ∈ gs, isLabel f.1 = true) ∧
        ∀ f ∈ gs, f.2.isScalar = true := by
  obtain ⟨line, col, comment, ref, kind, rfl, hscalar⟩ := h.eq
  simp only [List.mem_cons, List.not_mem_nil, or_false, forall_eq_or_imp, forall_eq] at hscalar
  obtain ⟨hline, hcol, hcomment, href, hkind⟩ := hscalar
  refine ⟨_, rfl, List.cons_ne_nil _ _, ?_, ?_⟩
  · simp only [List.mem_cons, List.not_mem_nil, or_false, forall_eq_or_imp, forall_eq]
    decide
  · simp only [List.mem_cons, List.not_mem_nil, or_false, forall_eq_or_imp, forall_eq]
    refine ⟨.inr ⟨[("line", line), ("col", col)], rfl, ?_, ?_⟩, .inl hcomment, .inl href, .inl hkind⟩
    · simp only [List.mem_cons, List.not_mem_nil, or_false, forall_eq_or_imp, forall_eq]
      decide
    · simpa using ⟨hline, hcol⟩

theorem IsMetadata.nested (h : IsMetadata m) : m.Nested := by
  obtain ⟨fs, rfl, -, hk, hv⟩ := h.exists_record
  refine nested_entries hk fun e he => ?_
  rcases hv e he with hscalar | ⟨gs, heq, hgk, hgv⟩
  · exact .scalar hscalar
  · rw [heq]
    exact nested_entries hgk fun f hf => .scalar (hgv f hf)

theorem lookup_metadata (hk : ∀ e ∈ es, isLabel e.1 = true) :
    Doc.lookup "metadata" (es.map fun e => (.text e.1, e.2)) = none := by
  cases h : Doc.lookup "metadata" (es.map fun e => (.text e.1, e.2)) with
  | none => rfl
  | some x =>
    obtain ⟨e, he, heq⟩ := List.mem_map.mp (Doc.mem_of_lookup h)
    have hlabel := hk e he
    rw [Doc.text.inj (Prod.mk.inj heq).1] at hlabel
    cases hlabel

/-- A label is no drawn entry. -/
theorem isDrawn_label (hk : ∀ e ∈ es, isLabel e.1 = true) :
    (Entry.mk key (es.map fun e => (.text e.1, e.2))).isDrawn = false := by
  rw [Entry.isDrawn, Entry.metadata, lookup_metadata hk]
  rfl

/-- The entry of a node. -/
def nodeEntry (key : String) (content metadata : Doc) : Entry :=
  ⟨key, [(.text "content", content), (.text "metadata", metadata)]⟩

theorem isDrawn_nodeEntry (key : String) (c : Doc) (hm : IsMetadata m) :
    (nodeEntry key c m).isDrawn = true := by
  obtain ⟨fs, rfl, hne, -⟩ := hm.exists_record
  cases fs with
  | nil => exact absurd rfl hne
  | cons e rest => rfl

/-- What is outlined can be drawn. -/
theorem Outlined.nested (h : Outlined lists stand d) : d.Nested := by
  induction h with
  | scalar h => exact .scalar h
  | list _ _ ih => exact .list ih
  | entries hk _ ih => exact nested_entries hk ih
  | @node key c m _ hm ih =>
    have hmeta : ∃ fields, m.bare = .dict fields := by
      obtain ⟨fs, rfl, -⟩ := hm.exists_record
      exact ⟨_, rfl⟩
    refine .record (by simp) ?_ ?_
    · simpa using hmeta
    · simpa using ⟨ih, hm.nested⟩

/-! ## Where sightings are -/

theorem sights_scalar (h : d.isScalar = true) : sights trail aside stand d = [] := by
  cases d with
  | null | bool | int | float | text => rfl
  | _ => cases h

theorem sights_label (hk : ∀ e ∈ es, isLabel e.1 = true) :
    sights trail aside (.entry key) (.record es) =
      sightsInEntries (⟨key, es.map fun e => (.text e.1, e.2)⟩ :: trail) aside
        (es.map fun e => (.text e.1, e.2)) := by
  rw [Doc.record, sights, if_neg (by simp [isDrawn_label hk])]

theorem sights_record (hstand : ∀ key, stand ≠ .entry key) :
    sights trail aside stand (.record es) =
      sightsInEntries trail aside (es.map fun e => (.text e.1, e.2)) := by
  cases stand with
  | entry key => exact absurd rfl (hstand key)
  | content | item => rfl

theorem sightsInEntries_scalars (h : ∀ e ∈ es, e.2.isScalar = true) :
    sightsInEntries trail aside (es.map fun e => (.text e.1, e.2)) = [] := by
  induction es with
  | nil => rfl
  | cons e rest ih =>
    obtain ⟨he, hrest⟩ := List.forall_mem_cons.mp h
    rw [List.map_cons, sightsInEntries, sights_scalar he, ih hrest, List.append_nil]

/-- Nothing in metadata has metadata. -/
theorem sights_metadata (hm : IsMetadata m) : sights trail aside (.entry key) m = [] := by
  obtain ⟨fs, rfl, -, hk, hv⟩ := hm.exists_record
  rw [sights_label hk]
  generalize Entry.mk key (fs.map fun e => (.text e.1, e.2)) :: trail = trail
  clear hm hk
  induction fs with
  | nil => rfl
  | cons e rest ih =>
    obtain ⟨he, hrest⟩ := List.forall_mem_cons.mp hv
    have hfirst : sights trail aside (.entry e.1) e.2 = [] := by
      rcases he with hscalar | ⟨gs, heq, hgk, hgv⟩
      · exact sights_scalar hscalar
      · rw [heq, sights_label hgk, sightsInEntries_scalars hgv]
    rw [List.map_cons, sightsInEntries, hfirst, ih hrest, List.append_nil]

/-- A node is sighted, and then what its content holds. -/
theorem sights_node {c : Doc} (hm : IsMetadata m) :
    sights trail aside (.entry key) (.record [("content", c), ("metadata", m)]) =
      ⟨trail, aside, nodeEntry key c m⟩ ::
        sights (nodeEntry key c m :: trail) aside .content c := by
  show (if (nodeEntry key c m).isDrawn then ⟨trail, aside, nodeEntry key c m⟩ ::
    sightsInFields (nodeEntry key c m :: trail) aside (nodeEntry key c m).fields else _) = _
  rw [if_pos (isDrawn_nodeEntry key c hm), nodeEntry, sightsInFields, sightsInFields,
    sightsInFields, if_pos rfl, if_neg (by decide), sights_metadata hm, List.append_nil,
    List.append_nil]

theorem mem_sightsInItems {xs : List Doc} {a : Sighting} :
    a ∈ sightsInItems trail aside xs ↔ ∃ x ∈ xs, a ∈ sights trail aside .item x := by
  induction xs with
  | nil => simp [sightsInItems]
  | cons x rest ih => simp [sightsInItems, ih]

theorem mem_sightsInEntries {a : Sighting} :
    a ∈ sightsInEntries trail aside (es.map fun e => (.text e.1, e.2)) ↔
      ∃ e ∈ es, a ∈ sights trail aside (.entry e.1) e.2 := by
  induction es with
  | nil => simp [sightsInEntries]
  | cons e rest ih => simp [sightsInEntries, ih]

/-- Sightings are further along the way. What is aside stays aside, and nothing else is aside if no
list stands under a label. -/
structure Sighting.From (lists aside : Bool) (trail : List Entry) (a : Sighting) : Prop where
  along : trail <:+ a.trail
  keys : (∀ e ∈ trail, e.key ≠ "") → ∀ e ∈ a.trail, e.key ≠ ""
  stays : aside = true → a.isAside = true
  reached : aside = false → lists = false → a.isAside = false

theorem Sighting.From.step {e : Entry} {a : Sighting} (h : a.From lists aside (e :: trail))
    (he : e.key ≠ "") : a.From lists aside trail :=
  ⟨(List.suffix_cons e trail).trans h.along, fun hkeys =>
    h.keys (List.forall_mem_cons.mpr ⟨he, hkeys⟩), h.stays, h.reached⟩

theorem key_ne_of_isLabel (h : isLabel key = true) : key ≠ "" := by
  rintro rfl
  cases h

theorem Outlined.from_sights (h : Outlined lists stand d)
    (hkey : ∀ key, stand = .entry key → key ≠ "") (trail : List Entry) (aside : Bool) :
    ∀ a ∈ sights trail aside stand d, a.From lists aside trail := by
  induction h generalizing trail aside with
  | scalar h => simp [sights_scalar h]
  | @list stand xs h hx ih =>
    intro a ha
    rw [sights, mem_sightsInItems] at ha
    obtain ⟨x, hmem, ha⟩ := ha
    obtain ⟨halong, hkeys, hstays, hreached⟩ := ih x hmem (by simp) trail _ a ha
    refine ⟨halong, hkeys, fun h => hstays (by simp [h]), fun hnot hlists => hreached ?_ hlists⟩
    obtain rfl := h.resolve_right (by simp [hlists])
    simp [hnot, Stand.isContent]
  | @entries stand es hk hv ih =>
    have hentry : ∀ trail, ∀ a ∈ sightsInEntries trail aside (es.map fun e => (.text e.1, e.2)),
        a.From lists aside trail := by
      intro trail a ha
      obtain ⟨e, he, ha⟩ := mem_sightsInEntries.mp ha
      refine ih e he (fun key heq => ?_) trail aside a ha
      cases heq
      exact key_ne_of_isLabel (hk e he)
    intro a ha
    cases stand with
    | entry key =>
      rw [sights_label hk] at ha
      exact (hentry _ a ha).step (hkey key rfl)
    | content | item => exact hentry trail a ha
  | node _ hm ih =>
    rw [sights_node hm]
    refine List.forall_mem_cons.mpr ⟨⟨List.suffix_rfl, id, id, fun h _ => h⟩, fun a ha => ?_⟩
    exact (ih (by simp) _ aside a ha).step (hkey _ rfl)

/-! ## Everything is sighted -/

/-- An entry stands in a document, or is the document under its key. -/
def Counts (stand : Stand) (d : Doc) (e : Entry) : Prop :=
  Inside d e ∨ stand = .entry e.key ∧ d.bare = .dict e.fields

theorem inside_record : Inside (.record es) e ↔ ∃ f ∈ es, Counts (.entry f.1) f.2 e := by
  constructor
  · intro h
    cases h with
    | here h =>
      obtain ⟨d, hmem, hbare⟩ := h.mem
      obtain ⟨f, hf, heq⟩ := List.mem_map.mp hmem
      obtain ⟨hkey, rfl⟩ := Prod.mk.inj heq
      exact ⟨f, hf, .inr ⟨congrArg Stand.entry (Doc.text.inj hkey), hbare⟩⟩
    | value hmem h =>
      obtain ⟨f, hf, heq⟩ := List.mem_map.mp hmem
      obtain ⟨-, rfl⟩ := Prod.mk.inj heq
      exact ⟨f, hf, .inl h⟩
  · rintro ⟨f, hf, h | ⟨hkey, hbare⟩⟩
    · exact .value (List.mem_map.mpr ⟨f, hf, rfl⟩) h
    · obtain ⟨i, hi⟩ := List.getElem?_of_mem (List.mem_map.mpr ⟨f, hf, rfl⟩ :
        (Doc.text f.1, f.2) ∈ es.map fun e => (Doc.text e.1, e.2))
      rw [Stand.entry.inj hkey] at hi
      exact .here ⟨f.2, hi, hbare⟩

/-- A drawn entry is not the dictionary that holds labels. -/
theorem counts_record (hk : ∀ f ∈ es, isLabel f.1 = true) (he : e.isDrawn = true) :
    Counts stand (.record es) e ↔ Inside (.record es) e := by
  refine ⟨fun h => h.resolve_right fun hself => ?_, .inl⟩
  have hfields : (es.map fun f => (Doc.text f.1, f.2)) = e.fields := Doc.dict.inj hself.2
  have hnot : (Entry.mk e.key e.fields).isDrawn = false := hfields ▸ isDrawn_label hk
  rw [he] at hnot
  cases hnot

theorem not_inside_scalar (h : d.isScalar = true) : ¬ Inside d e := by
  intro hin
  cases hin <;> cases h

/-- A drawn entry is not the content of a node. -/
theorem Outlined.counts_content (h : Outlined lists .content d) (he : e.isDrawn = true) :
    Counts stand d e ↔ Counts .content d e := by
  cases h with
  | @scalar _ d h =>
    cases d with
    | null | bool | int | float | text => simp [Counts, Doc.bare]
    | _ => cases h
  | list h hx => simp [Counts, Doc.bare]
  | entries hk hv => rw [counts_record hk he, counts_record hk he]

theorem not_counts_scalar (h : d.isScalar = true) : ¬ Counts stand d e := by
  rintro (hin | ⟨-, hbare⟩)
  · exact not_inside_scalar h hin
  · cases d with
    | null | bool | int | float | text => cases hbare
    | _ => cases h

/-- No drawn entry is in metadata. -/
theorem not_counts_metadata (hm : IsMetadata m) (he : e.isDrawn = true) : ¬ Counts stand m e := by
  obtain ⟨fs, rfl, -, hk, hv⟩ := hm.exists_record
  rw [counts_record hk he, inside_record]
  rintro ⟨f, hf, hcounts⟩
  rcases hv f hf with hscalar | ⟨gs, heq, hgk, hgv⟩
  · exact not_counts_scalar hscalar hcounts
  · rw [heq, counts_record hgk he, inside_record] at hcounts
    obtain ⟨g, hg, hcounts⟩ := hcounts
    exact not_counts_scalar (hgv g hg) hcounts

/-- A drawn entry at a node is the node, or stands in its content. -/
theorem counts_node {c : Doc} (hc : Outlined lists .content c) (hm : IsMetadata m)
    (he : e.isDrawn = true) :
    Counts (.entry key) (.record [("content", c), ("metadata", m)]) e ↔
      nodeEntry key c m = e ∨ Counts .content c e := by
  have hinside : Inside (.record [("content", c), ("metadata", m)]) e ↔ Counts .content c e := by
    rw [inside_record]
    simp [not_counts_metadata hm he, hc.counts_content he]
  rw [Counts, hinside, or_comm]
  refine or_congr_left ⟨fun ⟨hkey, hfields⟩ => ?_, fun h => ?_⟩
  · obtain ⟨k, fields⟩ := e
    cases hkey
    cases hfields
    rfl
  · subst h
    exact ⟨rfl, rfl⟩

/-- Exactly the drawn entries are sighted. -/
theorem Outlined.exists_sights_iff (h : Outlined lists stand d) (trail : List Entry)
    (aside : Bool) : (∃ a ∈ sights trail aside stand d, a.entry = e) ↔
      e.isDrawn = true ∧ Counts stand d e := by
  induction h generalizing trail aside with
  | scalar h => simp [sights_scalar h, not_counts_scalar h]
  | @list stand xs _ _ ih =>
    have hcounts : Counts stand (.list xs) e ↔ ∃ x ∈ xs, Counts .item x e := by
      constructor
      · rintro (hin | ⟨-, hbare⟩)
        · cases hin with
          | item hmem h => exact ⟨_, hmem, .inl h⟩
        · cases hbare
      · rintro ⟨x, hmem, h⟩
        exact .inl (.item hmem (h.resolve_right (by simp)))
    rw [sights, hcounts]
    constructor
    · rintro ⟨a, ha, rfl⟩
      obtain ⟨x, hmem, ha⟩ := mem_sightsInItems.mp ha
      obtain ⟨hdrawn, hin⟩ := (ih x hmem trail _).mp ⟨a, ha, rfl⟩
      exact ⟨hdrawn, x, hmem, hin⟩
    · rintro ⟨hdrawn, x, hmem, hin⟩
      obtain ⟨a, ha, heq⟩ := (ih x hmem trail _).mpr ⟨hdrawn, hin⟩
      exact ⟨a, mem_sightsInItems.mpr ⟨x, hmem, ha⟩, heq⟩
  | @entries stand es hk _ ih =>
    have hsights : ∃ trail', sights trail aside stand (.record es) =
        sightsInEntries trail' aside (es.map fun f => (.text f.1, f.2)) := by
      cases stand with
      | entry key => exact ⟨_, sights_label hk⟩
      | content | item => exact ⟨trail, sights_record (by simp)⟩
    obtain ⟨trail', heq⟩ := hsights
    rw [heq, and_congr_right fun hdrawn => counts_record hk hdrawn, inside_record]
    constructor
    · rintro ⟨a, ha, rfl⟩
      obtain ⟨f, hf, ha⟩ := mem_sightsInEntries.mp ha
      obtain ⟨hdrawn, hcounts⟩ := (ih f hf trail' aside).mp ⟨a, ha, rfl⟩
      exact ⟨hdrawn, f, hf, hcounts⟩
    · rintro ⟨hdrawn, f, hf, hcounts⟩
      obtain ⟨a, ha, heq⟩ := (ih f hf trail' aside).mpr ⟨hdrawn, hcounts⟩
      exact ⟨a, mem_sightsInEntries.mpr ⟨f, hf, ha⟩, heq⟩
  | @node key c m hc hm ih =>
    rw [sights_node hm, and_congr_right fun hdrawn => counts_node hc hm hdrawn, and_or_left,
      ← ih (nodeEntry key c m :: trail) aside]
    have hself : nodeEntry key c m = e ↔ e.isDrawn = true ∧ nodeEntry key c m = e :=
      ⟨fun h => ⟨h ▸ isDrawn_nodeEntry key c hm, h⟩, fun h => h.2⟩
    rw [← hself, List.exists_mem_cons_iff]

/-! ## What is drawn -/

/-- The strokes for the sightings that a drawing reaches. -/
def reached (sightings : List Sighting) : List Stroke :=
  (sightings.filter fun a => !a.isAside).flatMap fun a =>
    Box.strokes .declared ⟨[], a.trail, a.entry⟩

theorem reached_append (as bs : List Sighting) : reached (as ++ bs) = reached as ++ reached bs := by
  rw [reached, List.filter_append, List.flatMap_append]
  rfl

theorem reached_aside {as : List Sighting} (h : ∀ a ∈ as, a.isAside = true) : reached as = [] := by
  rw [reached, List.filter_eq_nil_iff.mpr (by simpa using h)]
  rfl

/-- A walk from where a document stands. -/
def walk (parent : String) (edge : Doc) : Stand → Doc → Except Fault (List Stroke)
  | .content, d => below .declared parent d
  | .item, d => ofItem .declared parent d
  | .entry key, d => ofEntry .declared parent edge (.text key) d

theorem belowAll_reached {parent : String} {xs : List Doc}
    (h : ∀ x ∈ xs, ofItem .declared parent x = .ok (reached (sights trail false .item x))) :
    belowAll .declared parent xs = .ok (reached (sightsInItems trail false xs)) := by
  induction xs with
  | nil => rfl
  | cons x rest ih =>
    obtain ⟨hx, hrest⟩ := List.forall_mem_cons.mp h
    rw [belowAll, hx, ih hrest, sightsInItems, reached_append]
    rfl

theorem ofEntries_reached {parent : String} {edge : Doc}
    (h : ∀ e ∈ es, ofEntry .declared parent edge (.text e.1) e.2 =
      .ok (reached (sights trail false (.entry e.1) e.2))) :
    ofEntries .declared parent edge (es.map fun e => (.text e.1, e.2)) =
      .ok (reached (sightsInEntries trail false (es.map fun e => (.text e.1, e.2)))) := by
  induction es with
  | nil => rfl
  | cons e rest ih =>
    obtain ⟨he, hrest⟩ := List.forall_mem_cons.mp h
    rw [List.map_cons, ofEntries, he, ih hrest, sightsInEntries, reached_append]
    rfl

theorem walk_scalar {parent : String} {edge : Doc} (h : d.isScalar = true) :
    walk parent edge stand d = .ok [] := by
  cases d with
  | null | bool | int | float | text => cases stand <;> rfl
  | _ => cases h

/-- The walk of a drawing reaches the sightings that are not aside. -/
theorem Outlined.walk_eq (h : Outlined lists stand d)
    (hkey : ∀ key, stand = .entry key → key ≠ "") (trail : List Entry) (hn : Named trail)
    (hlabel : (∀ key, stand ≠ .entry key) → label? trail = none) :
    walk (parentOf .declared trail) (edgeOf trail) stand d =
      .ok (reached (sights trail false stand d)) := by
  induction h generalizing trail with
  | scalar h =>
    rw [walk_scalar h, sights_scalar h]
    rfl
  | @list stand xs _ hx ih =>
    cases stand with
    | content =>
      refine belowAll_reached fun x hmem => ?_
      exact ih x hmem (by simp) trail hn fun _ => hlabel (by simp)
    | item | entry key =>
      have haside : ∀ a ∈ sightsInItems trail true xs, a.isAside = true := fun a ha => by
        obtain ⟨x, hmem, ha⟩ := mem_sightsInItems.mp ha
        exact ((hx x hmem).from_sights (by simp) trail true a ha).stays rfl
      exact congrArg Except.ok (reached_aside haside).symm
  | @entries stand es hk hv ih =>
    have hnested : (Doc.record es).Nested := nested_entries hk fun e he => (hv e he).nested
    have hrest : ∀ trail, Named trail → ofEntries .declared (parentOf .declared trail)
        (edgeOf trail) (es.map fun e => (.text e.1, e.2)) =
          .ok (reached (sightsInEntries trail false (es.map fun e => (.text e.1, e.2)))) := by
      intro trail hn
      refine ofEntries_reached fun e he => ih e he (fun key heq => ?_) trail hn
        fun h => absurd rfl (h e.1)
      cases heq
      exact key_ne_of_isLabel (hk e he)
    cases stand with
    | entry key =>
      have hn' : Named (⟨key, es.map fun e => (.text e.1, e.2)⟩ :: trail) :=
        hn.cons (hkey key rfl) hnested
      rw [sights_label hk, ← hrest _ hn']
      exact ofEntry_label .declared (e := ⟨key, _⟩) rfl (isDrawn_label hk)
    | content | item =>
      have hedge : edgeOf trail = .text "" := by
        rw [edgeOf, hlabel (by simp)]
        rfl
      rw [sights_record (by simp), ← hrest trail hn, hedge]
      rfl
  | @node key c m hc hm ih =>
    have hout : Outlined lists (.entry key) (.dict (nodeEntry key c m).fields) := .node hc hm
    have hnested := hout.nested
    have hdrawn := isDrawn_nodeEntry key c hm
    have hn' : Named (nodeEntry key c m :: trail) := hn.cons (hkey key rfl) hnested
    have hbelow : Drawing.below .declared ((nodeEntry key c m).name .declared) c =
        .ok (reached (sights (nodeEntry key c m :: trail) false .content c)) := by
      have hparent : parentOf .declared (nodeEntry key c m :: trail) = _ :=
        parentOf_cons_drawn hdrawn
      rw [← hparent]
      refine ih (by simp) _ hn' fun _ => ?_
      rw [label?, List.takeWhile_cons_of_neg (by simp [hdrawn])]
      rfl
    show ofEntry _ _ _ (.text (nodeEntry key c m).key) (.dict (nodeEntry key c m).fields) = _
    rw [ofEntry_drawn .declared [] rfl hdrawn (hkey key rfl) hnested hn, sights_node hm]
    show Except.bind (Drawing.below .declared ((nodeEntry key c m).name .declared) c) _ = _
    rw [hbelow]
    rfl

/-! ## Drawings of nodes -/

/-- The arrow to a sighted entry, from the nearest entry above that has metadata. -/
def Sighting.arrow? (a : Sighting) : Option (Entry × Option String × Entry) :=
  (parent? a.trail).map fun p => (p, label? a.trail, a.entry)

/-- The lines for a sighted entry: its declaration and the arrow to it. -/
def Sighting.lines (a : Sighting) : List String :=
  declaration a.entry :: a.arrow?.toList.map declaredArrow

/-- What the drawing of an outline shows of it. -/
structure Reaches (outline : Doc) (direction : Direction) : Prop where
  /-- All entries with metadata are sighted, wherever they stand. -/
  sighted : ∀ e : Entry, (∃ a ∈ sightings outline, a.entry = e) ↔
    e.isDrawn = true ∧ Inside outline e
  /-- Those that are not aside are declared in order, each with the arrow to it. -/
  declared : lines .declared direction outline = .ok (header direction ::
    ((sightings outline).filter fun a => !a.isAside).flatMap Sighting.lines)
  /-- The drawing is these lines. -/
  text : draw .declared direction.word outline =
    (lines .declared direction outline).map fun ls => String.intercalate "\n" ls ++ "\n"

/-- Nothing is missing from the drawing of an outline: no entry with metadata is aside, and there
is an arrow to each but the root. -/
def Complete (outline : Doc) : Prop :=
  ∀ a ∈ sightings outline, a.isAside = false ∧ (a.trail = [] ∨ a.arrow?.isSome = true)

theorem Outlined.reaches (h : Outlined lists .item d) (direction : Direction) :
    Reaches d direction := by
  have hstrokes : strokes .declared d = .ok (reached (sightings d)) :=
    h.walk_eq (by simp) [] (by simp [Named]) fun _ => rfl
  have hline : (reached (sightings d)).map (line .declared) =
      ((sightings d).filter fun a => !a.isAside).flatMap Sighting.lines := by
    rw [reached, List.map_flatMap]
    refine List.flatMap_congr fun a ha => map_line_declared fun b hb l hl => ?_
    have hfrom := h.from_sights (by simp) [] false a (List.mem_filter.mp ha).1
    obtain ⟨p, -, rfl⟩ := Option.map_eq_some_iff.mp (Option.mem_toList.mp hb)
    exact label?_ne (hfrom.keys (by simp)) hl
  refine ⟨fun e => ?_, ?_, ?_⟩
  · rw [sightings, h.exists_sights_iff]
    simp [Counts]
  · rw [lines, hstrokes, ← hline]
    rfl
  · rw [draw, ofWord_word, lines, hstrokes]
    rfl

/-- In an outline of one node there is an arrow to each entry below it. -/
theorem Rooted.complete (h : Rooted false false d) : Complete d := by
  have hout := h.outlined
  intro a ha
  refine ⟨(hout.from_sights (by simp) [] false a ha).reached rfl rfl, ?_⟩
  cases h with
  | null => cases ha
  | simple hb => cases hb
  | word key word hk =>
    have hscalar : ∀ e ∈ [(key, Doc.text word)], e.2.isScalar = true := by simp [Doc.isScalar]
    rw [sightings, Doc.single, sights_record (by simp), sightsInEntries_scalars hscalar] at ha
    cases ha
  | @node key c m hk hc hm =>
    rw [sightings, Doc.single, sights_record (by simp), List.map_cons, List.map_nil,
      sightsInEntries, sights_node hm, sightsInEntries, List.append_nil] at ha
    rcases List.mem_cons.mp ha with rfl | ha
    · exact .inl rfl
    · have hmem : nodeEntry key c m ∈ a.trail :=
        (hc.from_sights (by simp) _ false a ha).along.subset (List.mem_cons_self ..)
      refine .inr ?_
      rw [Sighting.arrow?, Option.isSome_map, parent?, List.find?_isSome]
      exact ⟨_, hmem, isDrawn_nodeEntry key c hm⟩

variable {s : Store} {v : Value}

/-- **Reach.** The drawing of a node shows the entries of its outline that do not stand in lists
under labels. Nothing is missing unless a comparison, a package or a managed context is inside. -/
theorem drawing_reaches {x : Doc} (hs : Built s) (h : run (outline false v) s = .ok x)
    (direction : Direction) : Reaches x direction ∧
      (Unlisted s v → s.isForm v .withItem = false → Complete x) := by
  have hout : ∀ {lists}, lists = true ∨ Unlisted s v → Outlined lists .item x ∧ _ := fun hlists =>
    yields_toDepth (b := false) hs (s.cells.size + 1) [] v nofun hlists x h
  refine ⟨(hout (.inl rfl)).1.reaches direction, fun hunlisted hitem => ?_⟩
  exact ((hout (.inr hunlisted)).2 (hunlisted v (.inl rfl) _ (by decide)) hitem).complete

/-- Where no node of a store puts a list under a label, no value does. -/
theorem unlisted_of_all (h : ∀ a n, s.node? a = some n → ∀ g ∈ listing, n.form.isA g = false) :
    Unlisted s v := by
  intro w _ g hg
  cases hw : s.nodeOf? w with
  | none => simp [Store.isForm, Store.formOf?, hw]
  | some n =>
    obtain ⟨a, -, hn⟩ := Built.exists_node hw
    simpa [Store.isForm, Store.formOf?, hw] using h a n hn g hg

/-- What is made for a block that gives back a sum. -/
def returnedSum : List Making :=
  [.node .variableUse [] [(.name, .text "x")], .node .variableUse [] [(.name, .text "y")],
   .node .binaryOp [] [(.opCode, .text "+"), (.lhs, .ref 21), (.rhs, .ref 25)],
   .node .functionReturn [] [(.value, .ref 29)], .node .block [] [], .child (.ref 32) (.ref 31)]

/-- What is made for a comparison of two names. -/
def comparedNames : List Making :=
  [.node .variableUse [] [(.name, .text "x")], .node .variableUse [] [(.name, .text "y")],
   .cell (.list [.text "<"]), .cell (.list [.ref 25]),
   .node .compareOp [] [(.left, .ref 21), (.ops, .ref 29), (.comparators, .ref 30)]]

theorem returnedSum_reached : ∃ s x, Store.made? returnedSum = some s ∧
    run (outline false (.ref 32)) s = .ok x ∧ Reaches x .down ∧ Complete x := by
  obtain ⟨s, hs, hok⟩ := (Option.any_eq_true _ _).mp (show (Store.made? returnedSum).any
    (fun s => (run (outline false (.ref 32)) s).isOk && !s.isForm (.ref 32) .withItem &&
      (List.range s.cells.size).all fun a => (s.node? a).all fun n =>
        listing.all fun g => !n.form.isA g) = true by
    decide +kernel)
  simp only [Bool.and_eq_true, Bool.not_eq_true'] at hok
  obtain ⟨⟨hok, hitem⟩, hforms⟩ := hok
  obtain ⟨x, hx⟩ := exists_of_isOk hok
  obtain ⟨hreaches, hcomplete⟩ := drawing_reaches (built_of_made hs) hx .down
  refine ⟨s, x, hs, hx, hreaches, hcomplete (unlisted_of_all fun a n hn g hg => ?_) hitem⟩
  have hlt := Store.lt_size_of_cell (Store.node?_eq_some.mp hn)
  have hnode := List.all_eq_true.mp hforms a (List.mem_range.mpr hlt)
  rw [hn, Option.all_some] at hnode
  simpa using List.all_eq_true.mp hnode g hg

/-- The keys of the sighted entries, whether they are aside, and whether an arrow leads to
them. -/
def sightedKeys (outline : Doc) : List (String × Bool × Bool) :=
  (sightings outline).map fun a => (a.entry.key, a.isAside, a.arrow?.isSome)

/-- The labels of the boxes of a drawing. -/
def boxLabels (strokes : List Stroke) : List String :=
  strokes.filterMap fun
    | .box _ label => some label
    | .arrow .. => none

/-- The second operand of a comparison is not drawn. Of a managed context the body is, and no
arrow leads to it. -/
theorem comparedNames_operand_missing :
    (Store.made? comparedNames).map (fun s => (run (outline false (.ref 31)) s).map fun x =>
      (sightedKeys x, (strokes .declared x).map boxLabels)) =
        some (.ok ([("COMPARE[<]", false, false), ("VARIABLE[x]", false, true),
          ("VARIABLE[y]", true, true)], .ok ["COMPARE[<]", "VARIABLE[x]"])) ∧
    (Store.made? managedContext).map (fun s => (run (outline false (.ref 29)) s).map sightedKeys) =
      some (.ok [("VARIABLE[x]", true, false), ("BLOCK[entry-0]", false, false)]) := by
  exact ⟨by decide +kernel, by decide +kernel⟩

end ProgramTree.Drawing
