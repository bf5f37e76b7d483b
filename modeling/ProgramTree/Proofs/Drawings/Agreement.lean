/-
Both dialects draw the same graph.

`drawings_agree` says that the lines of each dialect are those of the drawn entries in the
order of their places: a declaration and an arrow for each in one dialect, and the same
arrows in the other.

`Shows` is what is carried along a walk: it meets certain entries in order, and writes the
strokes of each in either dialect.
-/
import ProgramTree.Proofs.Drawings.Entries

namespace ProgramTree.Drawing

variable {b : Box} {d : Doc} {outline : Doc}

/-! ## What a walk shows -/

/-- The strokes for a drawn entry. -/
def Box.strokes (dialect : Dialect) (b : Box) : List Stroke :=
  (if dialect = .declared then [.box (b.entry.name dialect) b.entry.key] else []) ++
    b.arrow?.toList.map fun a => .arrow (a.1.name dialect) (a.2.1.getD "") (a.2.2.name dialect)

/-- A walk meets certain entries in the order of their places and writes the strokes of
each, in either dialect. -/
def Shows (A : Box → Prop) (walk : Dialect → Except Fault (List Stroke)) : Prop :=
  ∃ boxes : List Box, boxes.Pairwise (fun a b => a.place < b.place) ∧ (∀ b, b ∈ boxes ↔ A b) ∧
    ∀ dialect, walk dialect = .ok (boxes.flatMap (Box.strokes dialect))

section Shows

variable {A B : Box → Prop} {walk walk' : Dialect → Except Fault (List Stroke)}

theorem Shows.congr (h : Shows A walk) (hA : ∀ b, A b ↔ B b)
    (hw : ∀ dialect, walk' dialect = walk dialect) : Shows B walk' := by
  obtain ⟨boxes, hsorted, hmem, hwalk⟩ := h
  exact ⟨boxes, hsorted, fun b => (hmem b).trans (hA b), fun dialect =>
    (hw dialect).trans (hwalk dialect)⟩

theorem shows_nothing (hA : ∀ b, ¬ A b) (hw : ∀ dialect, walk dialect = .ok []) : Shows A walk :=
  ⟨[], .nil, fun b => ⟨nofun, fun hb => absurd hb (hA b)⟩, hw⟩

/-- A drawn entry comes before all that is drawn below it. -/
theorem Shows.under (b₀ : Box) (h : Shows A walk) (hlt : ∀ b, A b → b₀.place < b.place) :
    Shows (fun b => b = b₀ ∨ A b) fun dialect => do
      return b₀.strokes dialect ++ (← walk dialect) := by
  obtain ⟨boxes, hsorted, hmem, hwalk⟩ := h
  refine ⟨b₀ :: boxes, .cons (fun b hb => hlt b ((hmem b).mp hb)) hsorted, fun b => ?_,
    fun dialect => ?_⟩
  · rw [List.mem_cons, hmem]
  · show Except.bind (walk dialect) _ = _
    rw [hwalk, List.flatMap_cons]
    rfl

/-- A walk over several things, each of which comes before the next. -/
theorem shows_each {α : Type} (xs : List α) {A : Nat → Box → Prop}
    {f : Dialect → α → Except Fault (List Stroke)}
    (h : ∀ i x, xs[i]? = some x → Shows (A i) fun dialect => f dialect x)
    (hlt : ∀ i j a b, i < j → A i a → A j b → a.place < b.place) :
    Shows (fun b => ∃ i, i < xs.length ∧ A i b) fun dialect =>
      (xs.mapM (f dialect)).map List.flatten := by
  induction xs generalizing A with
  | nil => exact shows_nothing (fun b ⟨i, hi, _⟩ => absurd hi (Nat.not_lt_zero i)) fun _ => rfl
  | cons x rest ih =>
    obtain ⟨first, hfirst, hmem, hwalk⟩ := h 0 x rfl
    obtain ⟨others, hothers, hmem', hwalk'⟩ := ih (A := fun i => A (i + 1))
      (fun i y hy => h (i + 1) y hy) fun i j a b hij => hlt _ _ a b (Nat.succ_lt_succ hij)
    refine ⟨first ++ others, List.pairwise_append.mpr ⟨hfirst, hothers, ?_⟩, fun b => ?_,
      fun dialect => ?_⟩
    · intro a ha b hb
      obtain ⟨i, -, hi⟩ := (hmem' b).mp hb
      exact hlt 0 (i + 1) a b (Nat.succ_pos i) ((hmem a).mp ha) hi
    · rw [List.mem_append, hmem, hmem']
      constructor
      · rintro (hb | ⟨i, hi, hb⟩)
        · exact ⟨0, Nat.succ_pos _, hb⟩
        · exact ⟨i + 1, Nat.succ_lt_succ hi, hb⟩
      · rintro ⟨i, hi, hb⟩
        cases i with
        | zero => exact .inl hb
        | succ i => exact .inr ⟨i, Nat.lt_of_succ_lt_succ hi, hb⟩
    · have hx : f dialect x = _ := hwalk dialect
      have hrest : (rest.mapM (f dialect)).map List.flatten = _ := hwalk' dialect
      show ((x :: rest).mapM (f dialect)).map List.flatten = _
      rw [List.mapM_cons, hx, List.flatMap_append]
      cases hm : rest.mapM (f dialect) with
      | error e =>
        rw [hm] at hrest
        cases hrest
      | ok parts =>
        rw [hm] at hrest
        rw [← Except.ok.inj hrest]
        rfl

end Shows

/-! ## The strokes of an outline -/

section Strokes

variable {dialect : Dialect} {parent : String}

theorem ofEntries_eq (edge : Doc) (es : List (Doc × Doc)) : ofEntries dialect parent edge es =
    (es.mapM fun e => ofEntry dialect parent edge e.1 e.2).map List.flatten := by
  induction es with
  | nil => rfl
  | cons e rest ih =>
    rw [ofEntries, ih, List.mapM_cons]
    cases ofEntry dialect parent edge e.1 e.2 with
    | error fault => rfl
    | ok first =>
      cases rest.mapM fun e => ofEntry dialect parent edge e.1 e.2 with
      | error fault => rfl
      | ok others => rfl

theorem belowAll_eq (items : List Doc) :
    belowAll dialect parent items = (items.mapM (ofItem dialect parent)).map List.flatten := by
  induction items with
  | nil => rfl
  | cons item rest ih =>
    rw [belowAll, ih, List.mapM_cons]
    cases ofItem dialect parent item with
    | error fault => rfl
    | ok first =>
      cases rest.mapM (ofItem dialect parent) with
      | error fault => rfl
      | ok others => rfl

theorem ofEntry_bare (edge key d : Doc) :
    ofEntry dialect parent edge key d = ofEntry dialect parent edge key d.bare := by
  induction d using Doc.bare.induct with
  | case1 a d ih => rw [ofEntry, ih, Doc.bare]
  | case2 d h => rw [Doc.bare.eq_2 d h]

theorem below_bare (d : Doc) : below dialect parent d = below dialect parent d.bare := by
  induction d using Doc.bare.induct with
  | case1 a d ih => rw [below, ih, Doc.bare]
  | case2 d h => rw [Doc.bare.eq_2 d h]

theorem ofItem_bare (d : Doc) : ofItem dialect parent d = ofItem dialect parent d.bare := by
  induction d using Doc.bare.induct with
  | case1 a d ih => rw [ofItem, ih, Doc.bare]
  | case2 d h => rw [Doc.bare.eq_2 d h]

/-- The first content is the content. -/
theorem belowFirst_eq (fields : List (Doc × Doc)) : belowFirst dialect parent fields =
    below dialect parent ((Doc.lookup "content" fields).getD (.text "")) := by
  induction fields with
  | nil => rfl
  | cons e rest ih =>
    obtain ⟨key, value⟩ := e
    cases key with
    | text k =>
      by_cases hk : k = "content"
      · rw [hk]
        rfl
      · have hlookup : Doc.lookup "content" ((.text k, value) :: rest) =
            Doc.lookup "content" rest := by
          rw [Doc.lookup, Doc.textEntries, List.lookup_cons, beq_false_of_ne (Ne.symm hk)]
          rfl
        rw [belowFirst.eq_3, ih, hlookup]
        exact fun c hc => hk (Doc.text.inj (Prod.mk.inj hc).1)
    | _ => exact ih

/-! ## Names along the way -/

/-- The entries on the way to a dictionary have names. -/
def Named (trail : List Entry) : Prop :=
  ∀ dialect, ∀ a ∈ trail, a.isDrawn = true → a.name dialect ≠ ""

/-- The name of the parent of what lies at the end of the way, empty for none. -/
def parentOf (dialect : Dialect) (trail : List Entry) : String :=
  ((parent? trail).map (Entry.name dialect)).getD ""

/-- The label of the arrow to it, empty for none. -/
def edgeOf (trail : List Entry) : Doc :=
  .text ((label? trail).getD "")

variable {es fields inner : List (Doc × Doc)} {i : Nat} {e : Entry} {trail : List Entry}
  {place : List Nat}

theorem name_declared {id ref : String} (href : refOf e.metadata = .ok ref)
    (hid : stableId e.key ref e.content = .ok id) : e.name .declared = id := by
  rw [Entry.name, Entry.id?, href]
  show (Except.toOption (stableId e.key ref e.content)).getD "" = id
  rw [hid]
  rfl

theorem Named.cons (h : Named trail) (hkey : e.key ≠ "") (he : (Doc.dict e.fields).Nested) :
    Named (e :: trail) := by
  intro dialect a ha hdrawn
  rcases List.mem_cons.mp ha with rfl | ha
  · cases dialect with
    | bare => exact hkey
    | declared =>
      obtain ⟨ref, id, href, hid⟩ := exists_id he
      rw [name_declared href hid]
      exact stableId_ne hid
  · exact h dialect a ha hdrawn

theorem parentOf_cons_drawn (h : e.isDrawn = true) :
    parentOf dialect (e :: trail) = e.name dialect := by
  rw [parentOf, parent?, List.find?_cons_of_pos h]
  rfl

theorem parentOf_cons_bare (h : e.isDrawn = false) :
    parentOf dialect (e :: trail) = parentOf dialect trail := by
  rw [parentOf, parent?, List.find?_cons_of_neg (by simp [h])]
  rfl

theorem edgeOf_cons_drawn (h : e.isDrawn = true) : edgeOf (e :: trail) = .text "" := by
  rw [edgeOf, label?, List.takeWhile_cons_of_neg (by simp [h])]
  rfl

theorem edgeOf_cons_bare (h : e.isDrawn = false) : edgeOf (e :: trail) = .text e.key := by
  rw [edgeOf, label?, List.takeWhile_cons_of_pos (by simp [h])]
  rfl

theorem arrowLabel_text (s : String) : arrowLabel dialect (.text s) = .ok s := by
  rw [arrowLabel]
  by_cases hs : s = ""
  · rw [hs]
    rfl
  · have htrue : (Doc.text s).truthy = true := by simp [Doc.truthy, hs]
    rw [htrue]
    cases dialect <;> rfl

/-- The declaration of a drawn entry and the arrow to it. -/
theorem boxStrokes_eq (dialect : Dialect) (place : List Nat) (e : Entry) (hn : Named trail) :
    boxStrokes dialect (parentOf dialect trail) (edgeOf trail) (e.name dialect) e.key =
      .ok (Box.strokes dialect ⟨place, trail, e⟩) := by
  rw [boxStrokes, edgeOf, arrowLabel_text, Box.strokes, Box.arrow?, parentOf]
  cases hp : parent? trail with
  | none =>
    simp only [Option.map_none, Option.getD_none, Option.toList_none, List.map_nil,
      List.append_nil]
    rfl
  | some a =>
    have hne : (a.name dialect).isEmpty = false := by
      have h := hn dialect a (List.mem_of_find?_eq_some hp) (List.find?_some hp)
      simpa using h
    simp only [Option.map_some, Option.getD_some, hne, Option.toList_some, List.map_cons,
      List.map_nil]
    rfl

/-! ## From entries to walks -/

/-- The drawn entries that are met from a dictionary. -/
def DrawnFrom (place : List Nat) (trail : List Entry) (es : List (Doc × Doc)) (b : Box) : Prop :=
  b.entry.isDrawn = true ∧ Meets place trail es b

/-- The drawn entries that are met in what an entry opens. -/
def DrawnBelow (place : List Nat) (trail : List Entry) (e : Entry) (b : Box) : Prop :=
  ∃ step inner, e.Opens step inner ∧ DrawnFrom (place ++ step) (e :: trail) inner b

/-- The drawn entries that are met at an entry: the entry itself, and those in what it
opens. -/
def DrawnAt (place : List Nat) (trail : List Entry) (e : Entry) (b : Box) : Prop :=
  (e.isDrawn = true ∧ b = ⟨place, trail, e⟩) ∨ DrawnBelow place trail e b

/-- A walk over a dictionary shows what is drawn in it, whatever lies on the way to it. -/
def ShowsEntries (es : List (Doc × Doc)) : Prop :=
  ∀ place trail, Named trail → Shows (DrawnFrom place trail es) fun dialect =>
    ofEntries dialect (parentOf dialect trail) (edgeOf trail) es

theorem DrawnBelow.place_eq (h : DrawnBelow place trail e b) :
    ∃ i below, b.place = place ++ i :: below := by
  obtain ⟨step, inner, -, -, hm⟩ := h
  obtain ⟨i, below, heq⟩ := hm.place_eq
  cases step with
  | nil => exact ⟨i, below, by simpa using heq⟩
  | cons j step => exact ⟨j, step ++ i :: below, by simpa using heq⟩

theorem DrawnAt.place_eq (h : DrawnAt (place ++ [i]) trail e b) :
    ∃ below, b.place = place ++ i :: below := by
  rcases h with ⟨-, rfl⟩ | h
  · exact ⟨[], rfl⟩
  · obtain ⟨k, below, heq⟩ := h.place_eq
    exact ⟨k :: below, by simpa using heq⟩

/-- Below a drawn entry lies its content: one dictionary, or those in a list. -/
theorem shows_content (place : List Nat) (h : ∀ step inner, e.Opens step inner → ShowsEntries inner)
    (hdrawn : e.isDrawn = true) (hn : Named (e :: trail)) :
    Shows (DrawnBelow place trail e) fun dialect => below dialect (e.name dialect) e.content := by
  have hparent : ∀ dialect, parentOf dialect (e :: trail) = e.name dialect := fun dialect =>
    parentOf_cons_drawn hdrawn
  have hedge : edgeOf (e :: trail) = .text "" := edgeOf_cons_drawn hdrawn
  cases hc : e.content.bare with
  | dict inner =>
    have ho : e.Opens [] inner := .content hdrawn hc
    refine (h [] inner ho place (e :: trail) hn).congr (fun b => ⟨fun hb => ?_, fun hb => ?_⟩)
      fun dialect => ?_
    · exact ⟨[], inner, ho, by simpa using hb⟩
    · obtain ⟨step, inner', ho', hb⟩ := hb
      cases ho' with
      | fields h' => exact absurd hdrawn (by simp [h'])
      | content _ hc' =>
        cases hc.symm.trans hc'
        simpa using hb
      | item _ hc' => cases hc.symm.trans hc'
    · rw [below_bare, hc, hparent, hedge]
      rfl
  | list items =>
    -- The items that are no dictionaries show nothing, so each item has its own set of boxes.
    refine (shows_each items (f := fun dialect => ofItem dialect (e.name dialect))
      (A := fun j b => ∃ d inner, items[j]? = some d ∧ d.bare = .dict inner ∧
        DrawnFrom (place ++ [j]) (e :: trail) inner b) ?_ ?_).congr ?_ ?_
    · intro j d hd
      cases hbare : d.bare with
      | dict inner =>
        have ho : e.Opens [j] inner := .item hdrawn hc hd hbare
        refine (h [j] inner ho (place ++ [j]) (e :: trail) hn).congr (fun b => ⟨fun hb => ?_,
          fun hb => ?_⟩) fun dialect => ?_
        · exact ⟨d, inner, hd, hbare, hb⟩
        · obtain ⟨d', inner', hd', hbare', hb⟩ := hb
          cases hd.symm.trans hd'
          cases hbare.symm.trans hbare'
          exact hb
        · rw [ofItem_bare, hbare, hparent, hedge]
          rfl
      | held a d' => exact absurd hbare (d.bare_ne_held a d')
      | _ =>
        refine shows_nothing (fun b hb => ?_) fun dialect => ?_
        · obtain ⟨d', inner, hd', hbare', -⟩ := hb
          cases hd.symm.trans hd'
          cases hbare.symm.trans hbare'
        · rw [ofItem_bare, hbare]
          rfl
    · rintro j k a b hjk ⟨_, _, _, _, -, ha⟩ ⟨_, _, _, _, -, hb⟩
      obtain ⟨_, _, heq⟩ := ha.place_eq
      obtain ⟨_, _, heq'⟩ := hb.place_eq
      rw [heq, heq', List.append_assoc, List.append_assoc]
      exact lt_of_index_lt _ _ _ hjk
    · intro b
      constructor
      · rintro ⟨j, -, d, inner, hd, hbare, hb⟩
        exact ⟨[j], inner, .item hdrawn hc hd hbare, hb⟩
      · rintro ⟨step, inner, ho, hb⟩
        cases ho with
        | fields h' => exact absurd hdrawn (by simp [h'])
        | content _ hc' => cases hc.symm.trans hc'
        | item _ hc' hi hd =>
          cases hc.symm.trans hc'
          exact ⟨_, (List.getElem?_eq_some_iff.mp hi).1, _, _, hi, hd, hb⟩
    · intro dialect
      rw [below_bare, hc, below, belowAll_eq]
  | held a d => exact absurd hc (e.content.bare_ne_held a d)
  | _ =>
    refine shows_nothing (fun b hb => ?_) fun dialect => ?_
    · obtain ⟨step, inner, ho, -⟩ := hb
      cases ho with
      | fields h' => exact absurd hdrawn (by simp [h'])
      | content _ hc' => cases hc.symm.trans hc'
      | item _ hc' => cases hc.symm.trans hc'
    · rw [below_bare, hc]
      rfl

/-- A drawn entry is declared, with the arrow to it, and then its content is drawn. -/
theorem ofEntry_drawn (dialect : Dialect) (place : List Nat) (hd : d.bare = .dict e.fields)
    (hdrawn : e.isDrawn = true) (hkey : e.key ≠ "") (he : (Doc.dict e.fields).Nested)
    (hn : Named trail) :
    ofEntry dialect (parentOf dialect trail) (edgeOf trail) (.text e.key) d = do
      return Box.strokes dialect ⟨place, trail, e⟩ ++
        (← below dialect (e.name dialect) e.content) := by
  obtain ⟨ref, id, href, hid⟩ := exists_id he
  have hname : boxId dialect e.key ref e.content = .ok (e.name dialect) := by
    cases dialect with
    | declared => rw [boxId, hid, name_declared href hid]
    | bare => rfl
  have hparent : parentName dialect (.text e.key) (e.name dialect) = e.name dialect := by
    simp [parentName, Doc.truthy, hkey]
  have hbox := boxStrokes_eq dialect place e hn
  rw [ofEntry_bare, hd, ofEntry]
  show (if e.isDrawn = true then _ else _) = _
  rw [if_pos hdrawn]
  show (refOf e.metadata).bind _ = _
  rw [href]
  show (boxId dialect e.key ref e.content).bind _ = _
  rw [hname]
  show (boxStrokes dialect _ _ (e.name dialect) e.key).bind _ = _
  rw [hbox]
  show (belowFirst dialect (parentName dialect (.text e.key) _) e.fields).bind _ = _
  rw [hparent, belowFirst_eq]
  rfl

/-- Another entry passes the way on to what it holds. -/
theorem ofEntry_label (dialect : Dialect) (hd : d.bare = .dict e.fields)
    (hdrawn : e.isDrawn = false) :
    ofEntry dialect (parentOf dialect trail) (edgeOf trail) (.text e.key) d =
      ofEntries dialect (parentOf dialect (e :: trail)) (edgeOf (e :: trail)) e.fields := by
  rw [ofEntry_bare, hd, ofEntry, parentOf_cons_bare hdrawn, edgeOf_cons_bare hdrawn]
  show (if e.isDrawn = true then _ else _) = _
  rw [if_neg (by simp [hdrawn])]

/-- An entry: a drawn one shows itself and what is below, another one what it holds. -/
theorem shows_entry (place : List Nat) (h : ∀ step inner, e.Opens step inner → ShowsEntries inner)
    (hd : d.bare = .dict e.fields) (hkey : e.key ≠ "") (he : (Doc.dict e.fields).Nested)
    (hn : Named trail) :
    Shows (DrawnAt place trail e) fun dialect =>
      ofEntry dialect (parentOf dialect trail) (edgeOf trail) (.text e.key) d := by
  have hn' : Named (e :: trail) := hn.cons hkey he
  cases hdrawn : e.isDrawn with
  | true =>
    refine ((shows_content place h hdrawn hn').under ⟨place, trail, e⟩
      ?_).congr (fun b => by simp [DrawnAt, hdrawn]) fun dialect => ?_
    · intro b hb
      obtain ⟨j, below, heq⟩ := hb.place_eq
      rw [heq]
      exact lt_append_cons place j below
    · exact ofEntry_drawn dialect place hd hdrawn hkey he hn
  | false =>
    refine (h [] e.fields (.fields hdrawn) place (e :: trail) hn').congr (fun b => ?_)
      fun dialect => ?_
    · constructor
      · intro hb
        exact .inr ⟨[], e.fields, .fields hdrawn, by simpa using hb⟩
      · rintro (⟨hfalse, -⟩ | ⟨step, inner, ho, hb⟩)
        · exact absurd hfalse (by simp [hdrawn])
        · cases ho with
          | fields _ => simpa using hb
          | content h' => exact absurd h' (by simp [hdrawn])
          | item h' => exact absurd h' (by simp [hdrawn])
    · exact ofEntry_label dialect hd hdrawn

/-- What is drawn from a dictionary, entry by entry. -/
theorem drawnFrom_iff : DrawnFrom place trail es b ↔
    ∃ i, i < es.length ∧ ∃ e : Entry, e.At es i ∧ DrawnAt (place ++ [i]) trail e b := by
  constructor
  · rintro ⟨hdrawn, hm⟩
    cases hm with
    | here h =>
      obtain ⟨d, hd, hb⟩ := h
      exact ⟨_, (List.getElem?_eq_some_iff.mp hd).1, _, ⟨d, hd, hb⟩, .inl ⟨hdrawn, rfl⟩⟩
    | inside h ho hb =>
      obtain ⟨d, hd, hbare⟩ := h
      exact ⟨_, (List.getElem?_eq_some_iff.mp hd).1, _, ⟨d, hd, hbare⟩,
        .inr ⟨_, _, ho, hdrawn, by simpa using hb⟩⟩
  · rintro ⟨i, -, e, hat, ⟨hdrawn, rfl⟩ | ⟨step, inner, ho, hdrawn, hb⟩⟩
    · exact ⟨hdrawn, .here hat⟩
    · exact ⟨hdrawn, .inside hat ho (by simpa using hb)⟩

theorem Entry.At.unique {e' : Entry} (h : e.At es i) (h' : e'.At es i) : e = e' := by
  obtain ⟨d, hd, hb⟩ := h
  obtain ⟨d', hd', hb'⟩ := h'
  obtain ⟨hk, rfl⟩ := Prod.mk.inj (Option.some.inj (hd.symm.trans hd'))
  cases e
  cases e'
  cases hk
  cases hb.symm.trans hb'
  rfl

/-- **Walks.** A walk over a dictionary of an outline shows exactly what is drawn in it. -/
theorem shows_entries (es : List (Doc × Doc)) : (Doc.dict es).Nested → ShowsEntries es := by
  induction es using entries_induction with
  | h es ih =>
    intro hnested place trail hn
    refine (shows_each es (f := fun dialect x =>
        ofEntry dialect (parentOf dialect trail) (edgeOf trail) x.1 x.2)
      (A := fun i b => ∃ e : Entry, e.At es i ∧ DrawnAt (place ++ [i]) trail e b) ?_ ?_).congr
      (fun b => drawnFrom_iff.symm) fun dialect => ofEntries_eq _ es
    · rintro i ⟨key, d⟩ hx
      have hkey : ∃ k, key = .text k := by
        cases hnested with
        | scalar h => cases h
        | dict hk _ _ =>
          obtain ⟨k, hk, -⟩ := hk _ (List.mem_of_getElem? hx)
          exact ⟨k, hk⟩
      obtain ⟨k, rfl⟩ := hkey
      cases hbare : d.bare with
      | dict fields =>
        have hat : (Entry.mk k fields).At es i := ⟨d, hx, hbare⟩
        refine (shows_entry (place ++ [i]) (fun step inner ho => ih i _ step inner hat ho
          (nested_below hnested hat ho)) hbare (key_ne_of_at hnested hat)
          (nested_fields hnested hat) hn).congr (fun b => ?_) fun _ => rfl
        constructor
        · intro hb
          exact ⟨_, hat, hb⟩
        · rintro ⟨e', hat', hb⟩
          obtain rfl := hat.unique hat'
          exact hb
      | held a d' => exact absurd hbare (d.bare_ne_held a d')
      | _ =>
        refine shows_nothing (fun b hb => ?_) fun dialect => ?_
        · obtain ⟨e, ⟨d', hd', hb'⟩, -⟩ := hb
          cases hx.symm.trans hd'
          cases hbare.symm.trans hb'
        · rw [ofEntry_bare, hbare]
          rfl
    · rintro i j a b hij ⟨e, -, ha⟩ ⟨e', -, hb⟩
      obtain ⟨below, heq⟩ := ha.place_eq
      obtain ⟨below', heq'⟩ := hb.place_eq
      rw [heq, heq']
      exact lt_of_index_lt _ _ _ hij

end Strokes

/-! ## Drawings -/

theorem ofWord_word (direction : Direction) : Direction.ofWord direction.word = .ok direction := by
  cases direction <;> rfl

/-- The line that gives the direction. -/
def header (direction : Direction) : String :=
  "graph " ++ direction.word

/-- The lines of a drawing, before they are put together. -/
def lines (dialect : Dialect) (direction : Direction) (outline : Doc) :
    Except Fault (List String) := do
  return header direction :: (← strokes dialect outline).map (line dialect)

/-- The line that declares an entry. -/
def declaration (e : Entry) : String :=
  e.name .declared ++ "[\"" ++ escaped e.key ++ "\"]"

/-- The line of an arrow between declared entries. -/
def declaredArrow : Entry × Option String × Entry → String
  | (a, some label, b) =>
    a.name .declared ++ " -- \"" ++ escaped label ++ "\" --> " ++ b.name .declared
  | (a, none, b) => a.name .declared ++ " --> " ++ b.name .declared

/-- The line of an arrow between entries that are named by their keys. -/
def bareArrow : Entry × Option String × Entry → String
  | (a, some label, b) => a.key ++ " -->|" ++ Text.replaceChar '|' "/" label ++ "| " ++ b.key
  | (a, none, b) => a.key ++ " --> " ++ b.key

/-- The two drawings of an outline show these entries. -/
structure DrawnAs (outline : Doc) (direction : Direction) (boxes : List Box) : Prop where
  /-- The boxes are the drawn entries of the outline. -/
  mem_iff : ∀ b, b ∈ boxes ↔ Drawn outline b
  /-- They come in the order of their places: an entry before all that is below it, and what
  is below it before the next entry. -/
  sorted : boxes.Pairwise fun a b => a.place < b.place
  /-- Each has a stable name. -/
  named : ∀ b ∈ boxes, b.entry.id? = .ok (b.entry.name .declared)
  /-- One dialect declares each of them and draws the arrow to it, if there is one. -/
  declared : lines .declared direction outline = .ok (header direction :: boxes.flatMap fun b =>
    declaration b.entry :: b.arrow?.toList.map declaredArrow)
  /-- The other one draws the same arrows. -/
  bare : lines .bare direction outline =
    .ok (header direction :: (boxes.filterMap Box.arrow?).map bareArrow)
  /-- There is an arrow for each entry that has a drawn entry above it. -/
  count : (boxes.filterMap Box.arrow?).length =
    boxes.length - boxes.countP fun b => (parent? b.trail).isNone
  /-- The drawings are these lines. -/
  text : ∀ dialect, draw dialect direction.word outline =
    (lines dialect direction outline).map fun ls => String.intercalate "\n" ls ++ "\n"

theorem line_declaredArrow {a : Entry × Option String × Entry} (h : ∀ l, a.2.1 = some l → l ≠ "") :
    line .declared
      (.arrow (a.1.name .declared) (a.2.1.getD "") (a.2.2.name .declared)) = declaredArrow a := by
  obtain ⟨source, label, target⟩ := a
  cases label with
  | none => rfl
  | some l => simp [line, declaredArrow, h l rfl]

theorem line_bareArrow {a : Entry × Option String × Entry} (h : ∀ l, a.2.1 = some l → l ≠ "") :
    line .bare (.arrow (a.1.name .bare) (a.2.1.getD "") (a.2.2.name .bare)) = bareArrow a := by
  obtain ⟨source, label, target⟩ := a
  cases label with
  | none => rfl
  | some l => simp [line, bareArrow, Entry.name, h l rfl]

/-- The lines for a drawn entry: its declaration and the arrow to it. -/
theorem map_line_declared (h : ∀ a ∈ b.arrow?.toList, ∀ l, a.2.1 = some l → l ≠ "") :
    (b.strokes .declared).map (line .declared) =
      declaration b.entry :: b.arrow?.toList.map declaredArrow := by
  simp only [Box.strokes, if_true, List.singleton_append, List.map_cons, List.map_map]
  refine congrArg₂ _ rfl (List.map_congr_left fun a ha => ?_)
  exact line_declaredArrow (h a ha)

/-- The drawn entries of an outline, in order, and the strokes of each. -/
theorem shows_outline (h : outline.Nested) :
    Shows (Drawn outline) fun dialect => strokes dialect outline := by
  cases hbare : outline.bare with
  | dict es =>
    refine (shows_entries es (nested_of_bare h hbare) [] [] (by simp [Named])).congr (fun b => ?_)
      fun dialect => ?_
    · constructor
      · rintro ⟨hdrawn, hm⟩
        exact ⟨hdrawn, es, hbare, hm⟩
      · rintro ⟨hdrawn, es', hbare', hm⟩
        cases hbare.symm.trans hbare'
        exact ⟨hdrawn, hm⟩
    · rw [strokes, ofItem_bare, hbare]
      rfl
  | held a d => exact absurd hbare (outline.bare_ne_held a d)
  | _ =>
    refine shows_nothing (fun b hb => ?_) fun dialect => ?_
    · obtain ⟨-, es, hbare', -⟩ := hb
      cases hbare.symm.trans hbare'
    · rw [strokes, ofItem_bare, hbare]
      rfl

theorem Drawn.label_ne (h : outline.Nested) (hb : Drawn outline b)
    {a : Entry × Option String × Entry} (ha : b.arrow? = some a) {l : String}
    (hl : a.2.1 = some l) : l ≠ "" := by
  obtain ⟨-, es, hbare, hm⟩ := hb
  obtain ⟨p, -, rfl⟩ := Option.map_eq_some_iff.mp ha
  exact label?_ne (hm.key_ne (nested_of_bare h hbare) (by simp)) hl

/-- A block of a variable and of a number under a label. -/
def labelledOutline : Doc :=
  .record [("BLOCK", .record [
    ("content", .list [
      .record [("VARIABLE[a]", .record [
        ("content", .text "a"), ("metadata", .record [("ref", .text "a1")])])],
      .record [("left|right", .record [
        ("LITERAL[1]", .record [
          ("content", .int 1), ("metadata", .record [("ref", .text "")])])])]]),
    ("metadata", .record [("ref", .text "b1")])])]

theorem nested_labelledOutline : labelledOutline.Nested := by
  have hmeta : ∀ ref : String, (Doc.record [("ref", .text ref)]).Nested := fun ref =>
    .record (by simp) (by simp) (by simpa using .scalar rfl)
  have hbox : ∀ (key ref : String) (content : Doc), key ≠ "" → content.Nested →
      (Doc.record [(key, .record [("content", content),
        ("metadata", .record [("ref", .text ref)])])]).Nested := by
    intro key ref content hkey hcontent
    refine .record (by simpa using hkey) (by simp [Doc.record, Doc.bare]) ?_
    rw [List.forall_mem_singleton]
    refine .record (by simp) (by simp [Doc.record, Doc.bare]) ?_
    simpa using ⟨hcontent, hmeta ref⟩
  refine hbox _ _ _ (by simp) (.list ?_)
  rw [List.forall_mem_cons, List.forall_mem_singleton]
  refine ⟨hbox _ _ _ (by simp) (.scalar rfl), .record (by simp) (by simp) ?_⟩
  rw [List.forall_mem_singleton]
  exact hbox _ _ _ (by simp) (.scalar rfl)

example : lines .bare .down labelledOutline =
    .ok ["graph TD", "BLOCK --> VARIABLE[a]", "BLOCK -->|left/right| LITERAL[1]"] := by
  cbv

end ProgramTree.Drawing
