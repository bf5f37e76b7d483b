/-
The entries of an outline and their places.

What a drawing shows is said here without following a drawing. An entry of an outline has a
place, the way down to it from the root (`Drawing.Meets`), and it is drawn if it has
metadata. The arrow to it comes from the last drawn entry on the way, and the last key after
that is its label.

The way down goes through the dictionaries that entries open, so proofs about it do too
(`entries_induction`). The order of places is the order in which an outline is read: an
entry before all that is below it, and what is below it before the next entry.
-/
import ProgramTree.Drawing
import ProgramTree.Proofs.Grammar

namespace ProgramTree

/-! ## Outlines -/

namespace Doc

/-- Outlines that can be drawn: scalars, lists, and dictionaries whose keys are texts that
are not empty, with a dictionary for the metadata. -/
inductive Nested : Doc → Prop
  | scalar {d : Doc} (h : d.isScalar = true) : Nested d
  | list {xs : List Doc} (h : ∀ x ∈ xs, Nested x) : Nested (.list xs)
  | dict {es : List (Doc × Doc)} (hk : ∀ e ∈ es, ∃ k, e.1 = .text k ∧ k ≠ "")
      (hm : ∀ e ∈ es, e.1 = .text "metadata" → ∃ fields, e.2.bare = .dict fields)
      (hv : ∀ e ∈ es, Nested e.2) : Nested (.dict es)
  | held {a : Address} {d : Doc} (h : Nested d) : Nested (.held a d)

theorem Nested.record {es : List (String × Doc)} (hk : ∀ e ∈ es, e.1 ≠ "")
    (hm : ∀ e ∈ es, e.1 = "metadata" → ∃ fields, e.2.bare = .dict fields)
    (hv : ∀ e ∈ es, e.2.Nested) : Nested (.record es) := by
  refine .dict ?_ ?_ ?_
  all_goals
    intro e he
    obtain ⟨d, hd, rfl⟩ := List.mem_map.mp he
  · exact ⟨d.1, rfl, hk d hd⟩
  · exact fun h => hm d hd (Doc.text.inj h)
  · exact hv d hd

theorem Nested.bare {d : Doc} (h : d.Nested) : d.bare.Nested := by
  induction h with
  | scalar h =>
    rename_i d
    cases d with
    | held a d => cases h
    | _ => exact .scalar h
  | list h => exact .list h
  | dict hk hm hv => exact .dict hk hm hv
  | held _ ih => exact ih

/-- Such an outline can be written on one line. -/
theorem Nested.written {d : Doc} (h : d.Nested) : ∃ s, d.written = .ok s := by
  induction h with
  | scalar h =>
    rename_i d
    cases d with
    | null | bool | int | float | text => exact ⟨_, rfl⟩
    | _ => cases h
  | @list xs h ih =>
    have hall : ∀ ys : List Doc, (∀ y ∈ ys, ∃ s, y.written = .ok s) →
        ∃ ss, writtenAll ys = .ok ss := by
      intro ys hys
      induction ys with
      | nil => exact ⟨[], rfl⟩
      | cons y rest ihs =>
        obtain ⟨s, hs⟩ := hys y (List.mem_cons_self ..)
        obtain ⟨ss, hss⟩ := ihs fun z hz => hys z (List.mem_cons_of_mem _ hz)
        exact ⟨s :: ss, by rw [writtenAll, hs, hss]; rfl⟩
    obtain ⟨ss, hss⟩ := hall xs ih
    exact ⟨bracketed "[" "]" ss, by rw [Doc.written, hss]; rfl⟩
  | @dict es hk hm hv ih =>
    have hall : ∀ fs : List (Doc × Doc), (∀ e ∈ fs, ∃ k, e.1 = .text k ∧ k ≠ "") →
        (∀ e ∈ fs, ∃ s, e.2.written = .ok s) → ∃ ss, writtenEntries fs = .ok ss := by
      intro fs hkeys hvalues
      induction fs with
      | nil => exact ⟨[], rfl⟩
      | cons e rest ihs =>
        obtain ⟨key, value⟩ := e
        obtain ⟨k, rfl, -⟩ := hkeys _ (List.mem_cons_self ..)
        obtain ⟨s, hs⟩ := hvalues _ (List.mem_cons_self ..)
        obtain ⟨ss, hss⟩ := ihs (fun e he => hkeys e (List.mem_cons_of_mem _ he))
          fun e he => hvalues e (List.mem_cons_of_mem _ he)
        exact ⟨(Text.quoted k ++ ": " ++ s) :: ss, by
          rw [writtenEntries, hs, hss, Doc.written]
          rfl⟩
    obtain ⟨ss, hss⟩ := hall es hk ih
    exact ⟨bracketed "\x7b" "\x7d" ss, by rw [Doc.written, hss]; rfl⟩
  | held _ ih =>
    rw [Doc.written]
    exact ih

theorem Nested.plain {d : Doc} (h : d.Nested) : ∃ s, d.plain = .ok s := by
  cases d with
  | text s => exact ⟨s, rfl⟩
  | foreign thing =>
    cases h with
    | scalar h => cases h
  | _ => exact h.written

theorem mem_of_lookup {key : String} {es : List (Doc × Doc)} {d : Doc}
    (h : lookup key es = some d) : (.text key, d) ∈ es := by
  induction es with
  | nil => cases h
  | cons e rest ih =>
    obtain ⟨k, v⟩ := e
    cases k with
    | text k =>
      rw [lookup, textEntries, List.lookup_cons] at h
      split at h
      · next heq =>
        obtain rfl := Option.some.inj h
        rw [beq_iff_eq.mp heq]
        exact List.mem_cons_self ..
      · exact List.mem_cons_of_mem _ (ih h)
    | _ => exact List.mem_cons_of_mem _ (ih h)

theorem sizeOf_bare_le (d : Doc) : sizeOf d.bare ≤ sizeOf d := by
  induction d using Doc.bare.induct with
  | case1 a d ih =>
    rw [Doc.bare]
    simp only [Doc.held.sizeOf_spec]
    omega
  | case2 d h =>
    rw [Doc.bare]
    exact h

theorem bare_ne_held (d : Doc) (a : Address) (d' : Doc) : d.bare ≠ .held a d' := by
  induction d using Doc.bare.induct with
  | case1 b d ih =>
    rw [Doc.bare]
    exact ih
  | case2 d h =>
    rw [Doc.bare.eq_2 d h]
    exact h a d'

end Doc

namespace Drawing

/-! ## Entries and their places -/

/-- An entry whose value is a dictionary. -/
structure Entry where
  key : String
  fields : List (Doc × Doc)

namespace Entry

def metadata (e : Entry) : Doc :=
  (Doc.lookup "metadata" e.fields).getD (.dict [])

def content (e : Entry) : Doc :=
  (Doc.lookup "content" e.fields).getD (.text "")

/-- An entry is drawn if it has metadata. -/
def isDrawn (e : Entry) : Bool :=
  e.metadata.truthy

/-- The stable name of an entry, made of all that it shows. -/
def id? (e : Entry) : Except Fault String := do
  stableId e.key (← refOf e.metadata) e.content

/-- The name by which an entry is drawn in a dialect. -/
def name (dialect : Dialect) (e : Entry) : String :=
  match dialect with
  | .declared => e.id?.toOption.getD ""
  | .bare => e.key

/-- The entry stands in a dictionary at a position. -/
def At (es : List (Doc × Doc)) (i : Nat) (e : Entry) : Prop :=
  ∃ d : Doc, es[i]? = some (.text e.key, d) ∧ d.bare = .dict e.fields

/-- The dictionaries that an entry opens: what it holds if it has no metadata, and else its
content or the items of its content. -/
inductive Opens : Entry → List Nat → List (Doc × Doc) → Prop
  | fields {e : Entry} (h : e.isDrawn = false) : Opens e [] e.fields
  | content {e : Entry} {es : List (Doc × Doc)} (h : e.isDrawn = true)
      (hc : e.content.bare = .dict es) : Opens e [] es
  | item {e : Entry} {items : List Doc} {j : Nat} {d : Doc} {es : List (Doc × Doc)}
      (h : e.isDrawn = true) (hc : e.content.bare = .list items) (hi : items[j]? = some d)
      (hd : d.bare = .dict es) : Opens e [j] es

end Entry

/-- An entry that a walk can meet: its place, the entries on the way to it, the last one
first, and the entry itself. -/
structure Box where
  place : List Nat
  trail : List Entry
  entry : Entry

/-- From a dictionary at a place, an entry is met in it or in what one of its entries
opens. -/
inductive Meets : List Nat → List Entry → List (Doc × Doc) → Box → Prop
  | here {place : List Nat} {trail : List Entry} {es : List (Doc × Doc)} {i : Nat} {e : Entry}
      (h : e.At es i) : Meets place trail es ⟨place ++ [i], trail, e⟩
  | inside {place : List Nat} {trail : List Entry} {es below : List (Doc × Doc)} {i : Nat}
      {e : Entry} {step : List Nat} {b : Box} (h : e.At es i) (ho : e.Opens step below)
      (hb : Meets (place ++ i :: step) (e :: trail) below b) : Meets place trail es b

/-- The drawn entries of an outline. -/
def Drawn (outline : Doc) (b : Box) : Prop :=
  b.entry.isDrawn = true ∧ ∃ es, outline.bare = .dict es ∧ Meets [] [] es b

/-! ## Arrows -/

/-- The drawn entry from which an arrow leads to an entry at the end of the way. -/
def parent? (trail : List Entry) : Option Entry :=
  trail.find? Entry.isDrawn

/-- The label of that arrow: the last key on the way, if nothing is drawn after it. -/
def label? (trail : List Entry) : Option String :=
  (trail.takeWhile fun e => !e.isDrawn).head?.map Entry.key

namespace Box

/-- The arrow to an entry: where it comes from, its label and where it leads. -/
def arrow? (b : Box) : Option (Entry × Option String × Entry) :=
  (parent? b.trail).map fun a => (a, label? b.trail, b.entry)

end Box

/-! ## Going down -/

namespace Entry

variable {es below : List (Doc × Doc)} {i : Nat} {e : Entry} {step : List Nat}

theorem At.mem (h : e.At es i) : ∃ d, (.text e.key, d) ∈ es ∧ d.bare = .dict e.fields := by
  obtain ⟨d, hd, hb⟩ := h
  exact ⟨d, List.mem_of_getElem? hd, hb⟩

theorem sizeOf_lt_of_mem {key d : Doc} (h : (key, d) ∈ es) : sizeOf d < sizeOf es := by
  have hlt := List.sizeOf_lt_of_mem h
  simp only [Prod.mk.sizeOf_spec] at hlt
  omega

theorem At.sizeOf_lt (h : e.At es i) : sizeOf e.fields < sizeOf es := by
  obtain ⟨d, hmem, hbare⟩ := h.mem
  have hle := d.sizeOf_bare_le
  rw [hbare, Doc.dict.sizeOf_spec] at hle
  have hlt := sizeOf_lt_of_mem hmem
  omega

/-- A content that is a collection stands among the fields. -/
theorem mem_of_content {d : Doc} (hc : e.content.bare = d) (hd : ∀ s, d ≠ .text s) :
    ∃ c, (.text "content", c) ∈ e.fields ∧ c.bare = d := by
  rw [content] at hc
  cases h : Doc.lookup "content" e.fields with
  | none =>
    rw [h] at hc
    exact absurd hc.symm (hd "")
  | some c =>
    rw [h] at hc
    exact ⟨c, Doc.mem_of_lookup h, hc⟩

theorem Opens.sizeOf_le (h : e.Opens step below) : sizeOf below ≤ sizeOf e.fields := by
  cases h with
  | fields h => exact Nat.le_refl _
  | content h hc =>
    obtain ⟨c, hmem, hbare⟩ := mem_of_content hc (by simp)
    have hlt := sizeOf_lt_of_mem hmem
    have hle := c.sizeOf_bare_le
    rw [hbare, Doc.dict.sizeOf_spec] at hle
    omega
  | @item items j d _ h hc hi hd =>
    obtain ⟨c, hmem, hbare⟩ := mem_of_content hc (by simp)
    have hlt := sizeOf_lt_of_mem hmem
    have hle := c.sizeOf_bare_le
    rw [hbare, Doc.list.sizeOf_spec] at hle
    have hitem := List.sizeOf_lt_of_mem (List.mem_of_getElem? hi)
    have hle' := d.sizeOf_bare_le
    rw [hd, Doc.dict.sizeOf_spec] at hle'
    omega

end Entry

/-- What holds of a dictionary as soon as it holds of all that its entries open holds of
every dictionary. -/
theorem entries_induction {P : List (Doc × Doc) → Prop}
    (h : ∀ es, (∀ (i : Nat) (e : Entry) (step : List Nat) (below : List (Doc × Doc)),
      e.At es i → e.Opens step below → P below) → P es) (es : List (Doc × Doc)) : P es :=
  h es fun _ _ _ below hat hopen =>
    have : sizeOf below < sizeOf es := Nat.lt_of_le_of_lt hopen.sizeOf_le hat.sizeOf_lt
    entries_induction h below
termination_by sizeOf es

/-! ## Nested outlines -/

section Nested

variable {es below : List (Doc × Doc)} {i : Nat} {e : Entry} {step place : List Nat}
  {trail : List Entry}

theorem nested_of_mem {key d : Doc} (h : (Doc.dict es).Nested) (hmem : (key, d) ∈ es) :
    d.Nested := by
  cases h with
  | scalar h => cases h
  | dict hk hm hv => exact hv _ hmem

theorem nested_of_bare {d : Doc} (h : d.Nested) {c : Doc} (hc : d.bare = c) : c.Nested :=
  hc ▸ h.bare

theorem nested_fields (h : (Doc.dict es).Nested) (hat : e.At es i) :
    (Doc.dict e.fields).Nested := by
  obtain ⟨d, hmem, hbare⟩ := hat.mem
  exact nested_of_bare (nested_of_mem h hmem) hbare

theorem key_ne_of_at (h : (Doc.dict es).Nested) (hat : e.At es i) : e.key ≠ "" := by
  obtain ⟨d, hmem, -⟩ := hat.mem
  cases h with
  | scalar h => cases h
  | dict hk hm hv =>
    obtain ⟨k, hk, hne⟩ := hk _ hmem
    cases hk
    exact hne

theorem nested_content (h : (Doc.dict e.fields).Nested) : e.content.Nested := by
  rw [Entry.content]
  cases hc : Doc.lookup "content" e.fields with
  | none => exact .scalar rfl
  | some c => exact nested_of_mem h (Doc.mem_of_lookup hc)

theorem nested_below (h : (Doc.dict es).Nested) (hat : e.At es i) (ho : e.Opens step below) :
    (Doc.dict below).Nested := by
  have hfields := nested_fields h hat
  cases ho with
  | fields h => exact hfields
  | content h hc => exact nested_of_bare (nested_content hfields) hc
  | item h hc hi hd =>
    have hlist := nested_of_bare (nested_content hfields) hc
    cases hlist with
    | scalar h => cases h
    | list hx => exact nested_of_bare (hx _ (List.mem_of_getElem? hi)) hd

theorem Meets.nested_entry {b : Box} (h : Meets place trail es b) (hnested : (Doc.dict es).Nested) :
    (Doc.dict b.entry.fields).Nested := by
  induction h with
  | here hat => exact nested_fields hnested hat
  | inside hat ho _ ih => exact ih (nested_below hnested hat ho)

/-- Keys on the way to an entry of an outline are not empty. -/
theorem Meets.key_ne {b : Box} (h : Meets place trail es b) (hnested : (Doc.dict es).Nested)
    (ht : ∀ a ∈ trail, a.key ≠ "") : ∀ a ∈ b.trail, a.key ≠ "" := by
  induction h with
  | here _ => exact ht
  | inside hat ho _ ih =>
    refine ih (nested_below hnested hat ho) fun a ha => ?_
    rcases List.mem_cons.mp ha with rfl | ha
    · exact key_ne_of_at hnested hat
    · exact ht a ha

theorem label?_ne {l : String} (ht : ∀ a ∈ trail, a.key ≠ "") (h : label? trail = some l) :
    l ≠ "" := by
  obtain ⟨a, ha, rfl⟩ := Option.map_eq_some_iff.mp h
  exact ht a (List.takeWhile_subset _ (List.mem_of_mem_head? ha))

/-- A stable name is never empty. -/
theorem stableId_ne {label ref id : String} {content : Doc}
    (h : stableId label ref content = .ok id) : id ≠ "" := by
  obtain ⟨s, -, h⟩ := Look.bind_eq_ok.mp h
  obtain rfl := Except.ok.inj h
  intro hempty
  have hlen := congrArg String.length hempty
  rw [String.length_append] at hlen
  simp at hlen

/-- What is drawn of a nested outline has a stable name. -/
theorem exists_id (h : (Doc.dict e.fields).Nested) : ∃ ref id,
    refOf e.metadata = .ok ref ∧ stableId e.key ref e.content = .ok id := by
  have hmeta : e.metadata.Nested ∧ ∃ fs, e.metadata.bare = .dict fs := by
    rw [Entry.metadata]
    cases hm : Doc.lookup "metadata" e.fields with
    | none => exact ⟨.dict (by simp) (by simp) (by simp), [], rfl⟩
    | some m =>
      have hmem := Doc.mem_of_lookup hm
      refine ⟨nested_of_mem h hmem, ?_⟩
      cases h with
      | scalar h => cases h
      | dict _ hdict _ => exact hdict _ hmem rfl
  obtain ⟨hnested, fs, hbare⟩ := hmeta
  have href : ∃ ref, ((Doc.lookup "ref" fs).getD (.text "")).plain = .ok ref := by
    cases hr : Doc.lookup "ref" fs with
    | none => exact ⟨"", rfl⟩
    | some r => exact (nested_of_mem (nested_of_bare hnested hbare) (Doc.mem_of_lookup hr)).plain
  obtain ⟨ref, href⟩ := href
  obtain ⟨text, htext⟩ := (nested_content h).written
  have hid : ∃ id, stableId e.key ref e.content = .ok id := by
    rw [stableId, htext]
    exact ⟨_, rfl⟩
  obtain ⟨id, hid⟩ := hid
  refine ⟨ref, id, ?_, hid⟩
  rw [refOf, hbare]
  exact href

end Nested

/-! ## The order of places -/

theorem lt_of_index_lt {i j : Nat} (place below below' : List Nat) (h : i < j) :
    place ++ i :: below < place ++ j :: below' := by
  induction place with
  | nil => exact List.cons_lt_cons_iff.mpr (.inl h)
  | cons k place ih => exact List.cons_lt_cons_iff.mpr (.inr ⟨rfl, ih⟩)

theorem lt_append_cons (place : List Nat) (i : Nat) (below : List Nat) :
    place < place ++ i :: below := by
  induction place with
  | nil => exact List.nil_lt_cons ..
  | cons k place ih => exact List.cons_lt_cons_iff.mpr (.inr ⟨rfl, ih⟩)

/-- What is met from a dictionary lies below the place of the dictionary. -/
theorem Meets.place_eq {place : List Nat} {trail : List Entry} {es : List (Doc × Doc)} {b : Box}
    (h : Meets place trail es b) : ∃ i below, b.place = place ++ i :: below := by
  induction h with
  | here h => exact ⟨_, [], rfl⟩
  | inside _ _ _ ih =>
    obtain ⟨j, below, heq⟩ := ih
    exact ⟨_, _, by rw [heq, List.append_assoc, List.cons_append]⟩

end Drawing

end ProgramTree
