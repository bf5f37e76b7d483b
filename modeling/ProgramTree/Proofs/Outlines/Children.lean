/-
Which children the outline of a control structure tells.

Conditionals, loops and selections show each child in their outline, under a key of its own or
spread beside the others, where the key of a block and that of an expression never meet. So if
two such nodes of one form have the same outline, their children have the same outlines
(`children_told_iff`), with one exception: two forms of loops over a range leave out their
variable (`untold`).

Documents may be compared in any way that takes records apart by their keys
(`Doc.Comparison`): as they are, or without regard to the order of entries.
-/
import ProgramTree.Proofs.Looking.Deepening

namespace ProgramTree

open Look

/-! ## Comparing documents -/

namespace Doc

/-- A way to compare documents that takes records apart by their keys. -/
structure Comparison (R : Doc → Doc → Prop) : Prop where
  symm {x y : Doc} : R x y → R y x
  lookup {es fs : List (String × Doc)} {key : String} {x : Doc} :
    R (.record es) (.record fs) → es.lookup key = some x → ∃ y, fs.lookup key = some y ∧ R x y
  single {x y : Doc} (key : String) : R x y → R (.single key x) (.single key y)
  not_null {es : List (String × Doc)} : ¬R (.record es) .null

theorem record_injective {es fs : List (String × Doc)} (h : record es = record fs) : es = fs := by
  have hentries := congrArg entries h
  rw [entries_record, entries_record] at hentries
  exact Except.ok.inj hentries

theorem comparison_eq : Comparison Eq where
  symm h := h.symm
  lookup h hx := ⟨_, record_injective h ▸ hx, rfl⟩
  single key h := h ▸ rfl
  not_null h := by cases h

variable {R : Doc → Doc → Prop} {x y c c' m m' : Doc} {k k' : String}

theorem Comparison.of_single (hR : Comparison R) (h : R (.single k x) (.single k' y)) : R x y := by
  obtain ⟨z, hz, hxz⟩ := hR.lookup h (List.lookup_cons_self ..)
  rw [List.lookup_cons, List.lookup_nil] at hz
  split at hz
  · cases hz
    exact hxz
  · cases hz

/-- What is compared under the keys and beside the metadata. -/
theorem Comparison.content (hR : Comparison R)
    (h : R (.single k (.record [("content", c), ("metadata", m)]))
      (.single k' (.record [("content", c'), ("metadata", m')]))) : R c c' := by
  obtain ⟨z, hz, hcz⟩ := hR.lookup (hR.of_single h) (List.lookup_cons_self ..)
  cases hz
  exact hcz

end Doc

/-! ## Children that are the same -/

section Same

variable (R : Doc → Doc → Prop) (s : Store)

/-- Two values that have the same full outline, or are both missing. -/
def SameOutline (v w : Value) : Prop :=
  (v = .none ∧ w = .none) ∨
    ∃ x y, run (outline false v) s = .ok x ∧ run (outline false w) s = .ok y ∧ R x y

/-- Two nodes that have the same child in a field. -/
def SameChild (v w : Value) (f : Field) : Prop :=
  ∃ a b, run (field v f) s = .ok a ∧ run (field w f) s = .ok b ∧ SameOutline R s a b

/-- Two nodes that have the same children in a field, one by one. -/
def SameChildren (v w : Value) (f : Field) : Prop :=
  ∃ a b as bs, run (field v f) s = .ok a ∧ run (field w f) s = .ok b ∧
    run (items a) s = .ok as ∧ run (items b) s = .ok bs ∧
    List.Forall₂ (SameOutline R s) as bs

end Same

theorem Built.meets_of_form {s : Store} {v w : Value} {form : Form} {f : Field} {h : Hint}
    (hs : Built s) (hv : s.formOf? v = some form) (hkept : (f, h) ∈ form.kept)
    (hc : form.computed? f = none) (hw : run (field v f) s = .ok w) : h.meets s w = true := by
  obtain ⟨n, hn, rfl⟩ := Option.map_eq_some_iff.mp hv
  exact hs.meets_of_field hn hkept hc hw

namespace Outline

variable {R : Doc → Doc → Prop} {s : Store} {v w : Value} {d : Describe} {x : Doc} {form : Form}
  {e : String × Field} {keys : Bool → Value → Look String} {es fs : List (String × Doc)}
  {key : String} {f : Field} {fields : List (String × Field)}

/-- An entry with the outline of a field, empty without a value. -/
structure IsPart (s : Store) (v : Value) (e : String × Field) (part : String × Doc) : Prop where
  key : part.1 = e.1
  shown : ∃ w, run (field v e.2) s = .ok w ∧
    ((w = .none ∧ part.2 = .record []) ∨ run (outline false w) s = .ok part.2)

/-- A child under a key; a missing one is left out or shown as empty. -/
def Shows (s : Store) (v : Value) (es : List (String × Doc)) (e : String × Field) : Prop :=
  ∃ w, run (field v e.2) s = .ok w ∧
    ((w = .none ∧ (es.lookup e.1 = none ∨ es.lookup e.1 = some (.record []))) ∨
      ∃ x, run (outline false w) s = .ok x ∧ es.lookup e.1 = some x)

/-- A child whose outline is spread. Its key is the only one of its kind. -/
def Spreads (s : Store) (v : Value) (es : List (String × Doc)) (isBlock : Bool) (f : Field) :
    Prop :=
  ∃ w key x, run (field v f) s = .ok w ∧ run (outline false w) s = .ok (.single key x) ∧
    isKey isBlock key = true ∧ es.lookup key = some x ∧
    ∀ other ∈ es.map Prod.fst, isKey isBlock other = true → other = key

/-- Several children, one after the other in a record of their own. -/
def Lists (s : Store) (v : Value) (es : List (String × Doc)) (f : Field) : Prop :=
  ∃ w xs outlines, run (field v f) s = .ok w ∧ run (items w) s = .ok xs ∧
    List.Forall₂ (fun x y => run (outline false x) s = .ok y) xs outlines ∧
    es.lookup "cases" = some (.record (countedFrom (fun i => "case_" ++ toString i) 0 outlines))

/-! ## Rules that show children -/

theorem map_fst_of_isPart (h : List.Forall₂ (IsPart s v) fields es) :
    es.map Prod.fst = fields.map Prod.fst := by
  induction h with
  | nil => rfl
  | cons he _ ih => rw [List.map_cons, List.map_cons, he.key, ih]

theorem lookup_eq_none (h : key ∉ es.map Prod.fst) : es.lookup key = none := by
  rw [List.lookup_eq_none_iff]
  intro e he
  have hne : key ≠ e.1 := fun heq => h (heq ▸ List.mem_map_of_mem he)
  simpa using hne

/-- Parts under different keys are shown, whatever stands behind them. -/
theorem shows_of_isPart (h : List.Forall₂ (IsPart s v) fields es)
    (hnodup : (fields.map Prod.fst).Nodup) (more : List (String × Doc)) (he : e ∈ fields) :
    Shows s v (es ++ more) e := by
  induction h with
  | nil => cases he
  | @cons head p rest ps hp _ ih =>
    rw [List.map_cons, List.nodup_cons] at hnodup
    rcases List.mem_cons.mp he with rfl | he
    · obtain ⟨w, hw, hshown⟩ := hp.shown
      have hlookup : ((p :: ps) ++ more).lookup e.1 = some p.2 := by
        rw [← hp.key]
        exact List.lookup_cons_self ..
      refine ⟨w, hw, ?_⟩
      rw [hlookup]
      rcases hshown with ⟨hnone, hempty⟩ | hx
      · exact .inl ⟨hnone, .inr (hempty ▸ rfl)⟩
      · exact .inr ⟨p.2, hx, rfl⟩
    · have hne : (e.1 == p.1) = false := by
        rw [hp.key, beq_eq_false_iff_ne]
        exact fun heq => hnodup.1 (heq ▸ List.mem_map_of_mem he)
      have hrest := ih hnodup.2 he
      rw [Shows, List.cons_append, List.lookup_cons, hne]
      exact hrest

variable (hd : ∀ w x, run (d.outline false w) s = .ok x → run (outline false w) s = .ok x)

include hd

theorem isPart_of_part {e : String × Doc} (h : run (part d false v key f) s = .ok e) :
    IsPart s v (key, f) e := by
  simp only [part, Describe.fieldOutline, run_bind, run_pure] at h
  obtain ⟨x, hx, h⟩ := bind_eq_ok.mp h
  obtain ⟨w, hw, hx⟩ := bind_eq_ok.mp hx
  cases h
  exact ⟨rfl, w, hw, .inr (hd w x hx)⟩

omit hd in
theorem shows_of_parts (h : List.Forall₂ (IsPart s v) fields es)
    (hnodup : (fields.map Prod.fst).Nodup) : ∀ e ∈ fields, Shows s v es e := fun e he => by
  rw [← List.append_nil es]
  exact shows_of_isPart h hnodup [] he

theorem isPart_of_parts (h : run (parts d false v fields) s = .ok es) :
    List.Forall₂ (IsPart s v) fields es := by
  induction fields generalizing es with
  | nil =>
    cases h
    exact .nil
  | cons e rest ih =>
    simp only [parts, run_bind, run_pure] at h
    obtain ⟨p, hp, h⟩ := bind_eq_ok.mp h
    obtain ⟨ps, hps, h⟩ := bind_eq_ok.mp h
    cases h
    exact .cons (isPart_of_part hd hp) (ih hps)

theorem isPart_of_partOrEmpty {e : String × Doc} (h : run (partOrEmpty d false v key f) s = .ok e) :
    IsPart s v (key, f) e := by
  rw [partOrEmpty, run_bind] at h
  obtain ⟨w, hw, h⟩ := bind_eq_ok.mp h
  cases w with
  | none =>
    cases h
    exact ⟨rfl, .none, hw, .inl ⟨rfl, rfl⟩⟩
  | _ =>
    simp only [run_bind, run_pure] at h
    obtain ⟨x, hx, h⟩ := bind_eq_ok.mp h
    cases h
    exact ⟨rfl, _, hw, .inr (hd _ x hx)⟩

omit hd in
theorem spreads_append {isBlock : Bool} (hw : run (field v f) s = .ok w)
    (hx : run (outline false w) s = .ok (.single key x)) (hkey : isKey isBlock key = true)
    (hes : ∀ other ∈ es.map Prod.fst, isKey isBlock other = false) :
    Spreads s v (es ++ [(key, x)]) isBlock f := by
  have hnot : key ∉ es.map Prod.fst := fun hmem => by
    rw [hes key hmem] at hkey
    cases hkey
  refine ⟨w, key, x, hw, hx, hkey, ?_, fun other hother hkind => ?_⟩
  · rw [List.lookup_append, lookup_eq_none hnot, Option.none_or]
    exact List.lookup_cons_self ..
  · rw [List.map_append, List.mem_append] at hother
    rcases hother with hother | hother
    · rw [hes other hother] at hkind
      cases hkind
    · exact List.mem_singleton.mp hother

/-! ## What an outline tells -/

/-- What the outline of a node tells about the children in its fields. -/
def Tells (s : Store) (v : Value) (shown : List (String × Field)) (spread : List (Bool × Field))
    (lists : List Field) (x : Doc) : Prop :=
  ∃ key es m, x = .single key (.record [("content", .record es), ("metadata", m)]) ∧
    (∀ e ∈ shown, Shows s v es e) ∧ (∀ e ∈ spread, Spreads s v es e.1 e.2) ∧
    ∀ f ∈ lists, Lists s v es f

section Content

variable {shown : List (String × Field)} {spread : List (Bool × Field)} {lists : List Field}
  {x : Doc} (hshown : ∀ e ∈ shown, Shows s v es e)
  (hspread : ∀ e ∈ spread, Spreads s v es e.1 e.2) (hlists : ∀ f ∈ lists, Lists s v es f)

include hshown hspread hlists
omit hd

theorem tells_of_prepare (h : run (prepare d false v key (.record es)) s = .ok x) :
    Tells s v shown spread lists x := by
  simp only [prepare, Bool.false_eq_true, if_false, run_bind, run_pure] at h
  obtain ⟨m, -, h⟩ := bind_eq_ok.mp h
  cases h
  exact ⟨key, es, m, rfl, hshown, hspread, hlists⟩

theorem tells_of_keyed {keys : Look String}
    (h : run (do prepare d false v (← keys) (.record es)) s = .ok x) :
    Tells s v shown spread lists x := by
  rw [run_bind] at h
  obtain ⟨key, -, h⟩ := bind_eq_ok.mp h
  exact tells_of_prepare hshown hspread hlists h

end Content

omit hd in
/-- A missing child that is left out. -/
theorem shows_absent (hw : run (field v f) s = .ok .none) (h : key ∉ es.map Prod.fst) :
    Shows s v es (key, f) :=
  ⟨.none, hw, .inl ⟨rfl, .inl (lookup_eq_none h)⟩⟩

theorem isPart_of_outline (key : String) (hw : run (field v f) s = .ok w)
    (hx : run (d.outline false w) s = .ok x) : IsPart s v (key, f) (key, x) :=
  ⟨rfl, w, hw, .inr (hd w x hx)⟩

theorem tells_of_conditional (h : run (conditional keys d false v) s = .ok x) :
    Tells s v [("condition", .condition), ("then-block", .thenBranch),
      ("else-block", .elseBranch)] [] [] x := by
  rw [conditional, run_bind] at h
  obtain ⟨both, hboth, h⟩ := bind_eq_ok.mp h
  have hparts := isPart_of_parts hd hboth
  rw [run_bind] at h
  obtain ⟨w, hw, h⟩ := bind_eq_ok.mp h
  cases w with
  | none =>
    refine tells_of_keyed (fun e he => ?_) (by simp) (by simp) h
    rcases List.mem_append.mp (show e ∈ [_, _] ++ [_] from he) with he | he
    · exact shows_of_isPart hparts (by decide) [] he
    · rw [List.mem_singleton.mp he, List.append_nil]
      refine shows_absent hw ?_
      rw [map_fst_of_isPart hparts]
      decide
  | _ =>
    rw [run_bind] at h
    obtain ⟨p, hp, h⟩ := bind_eq_ok.mp h
    have hall := List.rel_append hparts (.cons (isPart_of_outline hd "else-block" hw hp) .nil)
    exact tells_of_keyed (shows_of_parts hall (by decide)) (by simp) (by simp) h

theorem tells_of_caseBranch (h : run (caseBranch d false v) s = .ok x) :
    Tells s v [("condition", .condition), ("body", .body)] [] [] x := by
  rw [caseBranch, run_bind] at h
  obtain ⟨w, hw, h⟩ := bind_eq_ok.mp h
  rw [run_bind] at h
  obtain ⟨key, -, h⟩ := bind_eq_ok.mp h
  cases w with
  | none =>
    simp only [pure_bind, run_bind] at h
    obtain ⟨p, hp, h⟩ := bind_eq_ok.mp h
    have hbody := isPart_of_part hd hp
    refine tells_of_prepare (fun e he => ?_) (by simp) (by simp) h
    rcases List.mem_cons.mp he with rfl | he
    · exact shows_absent hw (by simp [hbody.key])
    · exact shows_of_parts (.cons hbody .nil) (by decide) e he
  | _ =>
    simp only [pure_bind, run_bind] at h
    obtain ⟨c, hc, h⟩ := bind_eq_ok.mp h
    obtain ⟨p, hp, h⟩ := bind_eq_ok.mp h
    have hall := List.Forall₂.cons (isPart_of_outline hd "condition" hw hc)
      (.cons (isPart_of_part hd hp) .nil)
    exact tells_of_prepare (shows_of_parts hall (by decide)) (by simp) (by simp) h

omit hd in
theorem forall₂_of_mapM {α β : Type} {g : α → Except Fault β} {xs : List α} {ys : List β}
    (h : xs.mapM g = .ok ys) : List.Forall₂ (fun x y => g x = .ok y) xs ys := by
  induction xs generalizing ys with
  | nil =>
    cases h
    exact .nil
  | cons x xs ih =>
    rw [List.mapM_cons] at h
    obtain ⟨z, hz, h⟩ := bind_eq_ok.mp h
    obtain ⟨zs, hzs, h⟩ := bind_eq_ok.mp h
    cases h
    exact .cons hz (ih hzs)

/-- Children by their position. -/
theorem outlines_of_positions {l : Address} {xs : List Value} {ys : List Doc}
    (hxs : IsContainer s w l xs)
    (h : run ((List.range xs.length).mapM fun (i : Nat) => do
      d.outline false (← item w i)) s = .ok ys) :
    List.Forall₂ (fun x y => run (outline false x) s = .ok y) xs ys := by
  rw [run_mapM] at h
  obtain ⟨hlength, hget⟩ := List.forall₂_iff_get.mp (forall₂_of_mapM h)
  rw [List.length_range] at hlength
  refine List.forall₂_iff_get.mpr ⟨hlength, fun i hi hi' => hd _ _ ?_⟩
  have houtline := hget i (by simpa using hi) hi'
  simp only [List.get_eq_getElem, List.getElem_range, run_bind, hxs.run_item hi,
    ok_bind] at houtline
  exact houtline

theorem tells_of_switch (hs : Built s) (hv : s.formOf? v = some form)
    (hkept : (.cases, .node .nodeList) ∈ form.kept) (h : run (switch d false v) s = .ok x) :
    Tells s v [("value", .value)] [] [.cases] x := by
  rw [switch, run_bind] at h
  obtain ⟨key, -, h⟩ := bind_eq_ok.mp h
  rw [run_bind] at h
  obtain ⟨w, hw, h⟩ := bind_eq_ok.mp h
  have hlist := hs.meets_of_form hv hkept (computed?_eq_none _ (by decide)) hw
  have hitems : (Hint.items .node).meets s w = true := by
    rw [Hint.meets, Bool.or_eq_true]
    exact .inl hlist
  obtain ⟨xs, hxs, -⟩ := Build.items_contains hs.sound hitems fun _ _ => rfl
  rw [run_bind, hxs.run_length, ok_bind, run_bind] at h
  obtain ⟨outlines, houtlines, h⟩ := bind_eq_ok.mp h
  rw [run_bind] at h
  obtain ⟨p, hp, h⟩ := bind_eq_ok.mp h
  have hvalue := isPart_of_part hd hp
  have hrun : run (items w) s = .ok xs := by
    rw [items, hxs.run_forEach_ok (g := id) fun _ _ => rfl, List.map_id]
  have hcases : List.Forall₂ (fun x y => run (outline false x) s = .ok y) xs outlines := by
    cases hxs with
    | plain hc hseq => exact absurd hlist (by simp [Hint.meets, Store.isForm,
        not_nodeList_of_sequence hc hseq])
    | container hc => exact outlines_of_positions hd hc houtlines
  refine tells_of_prepare ?_ (by simp) (fun f hf => ?_) h
  · exact fun e he => shows_of_isPart (.cons hvalue .nil) (by decide) [_] he
  · obtain rfl := List.mem_singleton.mp hf
    refine ⟨w, xs, outlines, hw, hrun, hcases, ?_⟩
    obtain ⟨k, y⟩ := p
    obtain rfl : k = "value" := hvalue.key
    rfl

omit hd in
/-- The outline of a node is empty or stands under one key. -/
theorem null_or_single (hs : Built s) (hw : s.isForm w .node = true)
    (hx : run (outline false w) s = .ok x) :
    x = .null ∨ ∃ key y, x = .single key y ∧ isKey (s.isForm w .block) key = true := by
  obtain ⟨_, -, h⟩ := follows_look hs w x hx
  rcases h.single hw with hnull | ⟨k, _, y, _, rfl, -, hkey, -⟩
  · exact .inl hnull
  · exact .inr ⟨k, y, rfl, hkey.ofFull⟩

omit hd in
/-- The one entry of an outline that is spread. -/
theorem single_of_entries (hs : Built s) (hw : s.isForm w .node = true)
    (hx : run (outline false w) s = .ok x) (hes : x.entries = .ok es) :
    ∃ key y, x = .single key y ∧ isKey (s.isForm w .block) key = true ∧ es = [(key, y)] := by
  rcases null_or_single hs hw hx with rfl | ⟨key, y, rfl, hkey⟩
  · cases hes
  · rw [Doc.single, Doc.entries_record] at hes
    cases hes
    exact ⟨key, y, rfl, hkey, rfl⟩

omit hd in
theorem isForm_of_isA {g k : Form} (h : s.isForm w g = true) (hg : g.isA k = true) :
    s.isForm w k = true := by
  obtain ⟨form, hform, hisA⟩ := Store.isForm_iff.mp h
  exact Store.isForm_iff.mpr ⟨form, hform, Form.isA_trans hisA hg⟩

section Loops

variable (hs : Built s) {form : Form} (hv : s.formOf? v = some form)
  (hbody : (.body, .node .block) ∈ form.kept) {x : Doc}

include hs hv hbody

theorem single_of_spread {more : List (String × Doc)}
    (h : run (spread d false v .body) s = .ok more) :
    ∃ w key y, run (field v .body) s = .ok w ∧ run (outline false w) s = .ok (.single key y) ∧
      isKey true key = true ∧ more = [(key, y)] := by
  simp only [spread, Describe.fieldOutline, run_bind, run_ofOutcome] at h
  obtain ⟨y, hy, h⟩ := bind_eq_ok.mp h
  obtain ⟨w, hw, hy⟩ := bind_eq_ok.mp hy
  have hblock : s.isForm w .block = true :=
    hs.meets_of_form hv hbody (computed?_eq_none _ (by decide)) hw
  obtain ⟨key, z, rfl, hkey, rfl⟩ := single_of_entries hs (isForm_of_isA hblock (by decide))
    (hd w y hy) h
  exact ⟨w, key, z, hw, hd _ _ hy, hblock ▸ hkey, rfl⟩

/-- Parts beside a body that is spread. -/
theorem tells_beside {more : List (String × Doc)} (hparts : List.Forall₂ (IsPart s v) fields es)
    (hnodup : (fields.map Prod.fst).Nodup) (hkeys : ∀ e ∈ fields, isKey true e.1 = false)
    (hmore : run (spread d false v .body) s = .ok more)
    (h : run (prepare d false v key (.record (Doc.merge es more))) s = .ok x) :
    Tells s v fields [(true, .body)] [] x := by
  obtain ⟨w, k, y, hw, hy, hkey, rfl⟩ := single_of_spread hd hs hv hbody hmore
  have hes : ∀ other ∈ es.map Prod.fst, isKey true other = false := by
    rw [map_fst_of_isPart hparts]
    intro other hother
    obtain ⟨e, he, rfl⟩ := List.mem_map.mp hother
    exact hkeys e he
  have hnot : k ∉ es.map Prod.fst := fun hmem => by
    rw [hes k hmem] at hkey
    cases hkey
  rw [Doc.merge, List.foldl_cons, List.foldl_nil, put_of_not_mem hnot] at h
  refine tells_of_prepare (fun e he => shows_of_isPart hparts hnodup _ he) (fun e he => ?_)
    (by simp) h
  obtain rfl := List.mem_singleton.mp he
  exact spreads_append hw hy hkey hes

theorem tells_of_loop (hnodup : (fields.map Prod.fst).Nodup)
    (hkeys : ∀ e ∈ fields, isKey true e.1 = false)
    (h : run (loop keys fields d false v) s = .ok x) : Tells s v fields [(true, .body)] [] x := by
  simp only [loop, run_bind] at h
  obtain ⟨head, hhead, h⟩ := bind_eq_ok.mp h
  obtain ⟨more, hmore, h⟩ := bind_eq_ok.mp h
  obtain ⟨key, -, h⟩ := bind_eq_ok.mp h
  exact tells_beside hd hs hv hbody (isPart_of_parts hd hhead) hnodup hkeys hmore h

/-- The parts of the head of an asynchronous loop. -/
theorem tells_of_asyncLoop {first : List (String × Field)}
    (hnodup : ((first ++ rangeParts).map Prod.fst).Nodup)
    (hkeys : ∀ e ∈ first ++ rangeParts, isKey true e.1 = false)
    (h : run (asyncLoop key first d false v) s = .ok x) :
    Tells s v (first ++ rangeParts) [(true, .body)] [] x := by
  simp only [asyncLoop, run_bind] at h
  obtain ⟨head, hhead, h⟩ := bind_eq_ok.mp h
  obtain ⟨start, hstart, h⟩ := bind_eq_ok.mp h
  obtain ⟨finish, hfinish, h⟩ := bind_eq_ok.mp h
  obtain ⟨step, hstep, h⟩ := bind_eq_ok.mp h
  obtain ⟨more, hmore, h⟩ := bind_eq_ok.mp h
  have hrange : List.Forall₂ (IsPart s v) rangeParts [start, finish, step] :=
    .cons (isPart_of_partOrEmpty hd hstart) (.cons (isPart_of_part hd hfinish)
      (.cons (isPart_of_partOrEmpty hd hstep) .nil))
  exact tells_beside hd hs hv hbody (List.rel_append (isPart_of_parts hd hhead) hrange) hnodup
    hkeys hmore h

theorem tells_of_whileLoop (hcondition : (.condition, .node .expr) ∈ form.kept)
    (h : run (whileLoop keys d false v) s = .ok x) :
    Tells s v [] [(false, .condition), (true, .body)] [] x := by
  simp only [whileLoop, Describe.fieldOutline, run_bind, run_ofOutcome] at h
  obtain ⟨c, hc, h⟩ := bind_eq_ok.mp h
  obtain ⟨w, hw, hc⟩ := bind_eq_ok.mp hc
  obtain ⟨b, hb, h⟩ := bind_eq_ok.mp h
  obtain ⟨u, hu, hb⟩ := bind_eq_ok.mp hb
  obtain ⟨key, -, h⟩ := bind_eq_ok.mp h
  obtain ⟨ces, hces, h⟩ := bind_eq_ok.mp h
  obtain ⟨bes, hbes, h⟩ := bind_eq_ok.mp h
  have hexpr : s.isForm w .expr = true :=
    hs.meets_of_form hv hcondition (computed?_eq_none _ (by decide)) hw
  have hblock : s.isForm u .block = true :=
    hs.meets_of_form hv hbody (computed?_eq_none _ (by decide)) hu
  obtain ⟨hnode, hnot⟩ := not_block_of_expr hexpr
  obtain ⟨k, y, rfl, hk, rfl⟩ := single_of_entries hs hnode (hd w c hc) hces
  obtain ⟨k', y', rfl, hk', rfl⟩ := single_of_entries hs (isForm_of_isA hblock (by decide))
    (hd u b hb) hbes
  rw [hnot] at hk
  rw [hblock] at hk'
  have hne : k ≠ k' := (ne_of_isKey hk' hk).symm
  simp only [Doc.merge, List.foldl_cons, List.foldl_nil, Doc.put, if_neg hne] at h
  have hcond : Spreads s v [(k, y), (k', y')] false .condition := by
    refine ⟨w, k, y, hw, hd w _ hc, hk, List.lookup_cons_self .., fun other hother hkind => ?_⟩
    rcases List.mem_cons.mp hother with rfl | hother
    · rfl
    · obtain rfl := List.mem_singleton.mp hother
      exact absurd rfl (ne_of_isKey hk' hkind)
  have hblockless : ∀ other ∈ [(k, y)].map Prod.fst, isKey true other = false := by
    exact List.forall_mem_singleton.mpr
      (Bool.eq_false_iff.mpr fun hkind => ne_of_isKey hkind hk rfl)
  refine tells_of_prepare (by simp) (fun e he => ?_) (by simp) h
  rcases List.mem_cons.mp he with rfl | he
  · exact hcond
  · obtain rfl := List.mem_singleton.mp he
    exact spreads_append hu (hd u _ hb) hk' hblockless

end Loops

/-! ## Children that are told are the same -/

section Told

variable (hR : Doc.Comparison R) (hes : R (.record es) (.record fs))

include hR hes
omit hd

omit hes in
theorem not_empty (hx : x = .null ∨ ∃ key y, x = .single key y) : ¬R x (.record []) := by
  intro h
  rcases hx with rfl | ⟨key, y, rfl⟩
  · exact hR.not_null (hR.symm h)
  · obtain ⟨_, hnone, -⟩ := hR.lookup h (List.lookup_cons_self ..)
    cases hnone

/-- What one node shows, the other one shows too. -/
theorem outline_of_shows (hx : es.lookup key = some x)
    (hshape : x = .null ∨ ∃ key y, x = .single key y) (hw : Shows s w fs (key, f)) :
    ∃ b y, run (field w f) s = .ok b ∧ run (outline false b) s = .ok y ∧ R x y := by
  obtain ⟨y, hy, hxy⟩ := hR.lookup hes hx
  obtain ⟨b, hb, ⟨-, hnone | hempty⟩ | ⟨z, hz, hlookup⟩⟩ := hw
  · rw [hnone] at hy
    cases hy
  · rw [hempty] at hy
    cases hy
    exact absurd hxy (not_empty hR hshape)
  · rw [hlookup] at hy
    cases hy
    exact ⟨b, y, hb, hz, hxy⟩

/-- Two nodes of which each shows the child in a field. -/
theorem same_of_shows (hs : Built s)
    (hnode : ∀ u a, u = v ∨ u = w → run (field u e.2) s = .ok a →
      a = .none ∨ s.isForm a .node = true) (hv : Shows s v es e) (hw : Shows s w fs e) :
    SameChild R s v w e.2 := by
  have houtline : ∀ x, run (outline false .none) s ≠ .ok x := fun x h => by cases h
  have hshape : ∀ {u a x}, u = v ∨ u = w → run (field u e.2) s = .ok a →
      run (outline false a) s = .ok x → x = .null ∨ ∃ key y, x = .single key y := by
    intro u a x hu ha hx
    rcases hnode u a hu ha with rfl | hform
    · exact absurd hx (houtline x)
    · refine (null_or_single hs hform hx).imp_right ?_
      rintro ⟨key, y, h, -⟩
      exact ⟨key, y, h⟩
  obtain ⟨a, ha, ⟨rfl, habsent⟩ | ⟨x, hx, hlookup⟩⟩ := id hv
  · obtain ⟨b, hb, ⟨rfl, -⟩ | ⟨y, hy, hlookup⟩⟩ := hw
    · exact ⟨.none, .none, ha, hb, .inl ⟨rfl, rfl⟩⟩
    · obtain ⟨c, z, hc, hz, -⟩ := outline_of_shows hR (hR.symm hes) hlookup
        (hshape (.inr rfl) hb hy) hv
      cases ha.symm.trans hc
      exact absurd hz (houtline z)
  · obtain ⟨b, y, hb, hy, hxy⟩ := outline_of_shows hR hes hlookup (hshape (.inl rfl) ha hx) hw
    exact ⟨a, b, ha, hb, .inr ⟨x, y, hx, hy, hxy⟩⟩

theorem same_of_spreads {isBlock : Bool} (hv : Spreads s v es isBlock f)
    (hw : Spreads s w fs isBlock f) : SameChild R s v w f := by
  obtain ⟨a, k, x, ha, hx, hk, hlookup, -⟩ := hv
  obtain ⟨b, k', y, hb, hy, -, hlookup', honly⟩ := hw
  obtain ⟨z, hz, hxz⟩ := hR.lookup hes hlookup
  have hmem : k ∈ fs.map Prod.fst := by
    by_contra hnot
    rw [lookup_eq_none hnot] at hz
    cases hz
  obtain rfl := honly k hmem hk
  cases hlookup'.symm.trans hz
  exact ⟨a, b, ha, hb, .inr ⟨_, _, hx, hy, hR.single k hxz⟩⟩

omit hR hes in
theorem lookup_countedFrom {keys : Nat → String} (hkeys : Function.Injective keys) (xs : List Doc)
    (i j : Nat) : (countedFrom keys i xs).lookup (keys (i + j)) = xs[j]? := by
  induction xs generalizing i j with
  | nil => rfl
  | cons x xs ih =>
    rw [countedFrom, List.lookup_cons]
    cases j with
    | zero => simp
    | succ j =>
      have hne : (keys (i + (j + 1)) == keys i) = false := by
        rw [beq_eq_false_iff_ne]
        exact fun h => absurd (hkeys h) (by omega)
      rw [hne, List.getElem?_cons_succ, ← ih (i + 1) j, Nat.add_assoc, Nat.add_comm 1 j]

omit hR hes in
theorem caseKeys_injective : Function.Injective fun i : Nat => "case_" ++ toString i := by
  intro i j h
  have hdigits := congrArg String.toList h
  simp only [String.toList_append, List.append_cancel_left_eq, Nat.toString_eq_ofList_toDigits,
    String.toList_ofList] at hdigits
  rw [← Nat.ofDigitChars_ten_toDigits (n := i), hdigits, Nat.ofDigitChars_ten_toDigits]

omit hes in
theorem forall₂_of_countedFrom {keys : Nat → String} (hkeys : Function.Injective keys)
    {xs ys : List Doc} (h : R (.record (countedFrom keys 0 xs)) (.record (countedFrom keys 0 ys))) :
    List.Forall₂ R xs ys := by
  have hget : ∀ {xs ys : List Doc}, R (.record (countedFrom keys 0 xs))
      (.record (countedFrom keys 0 ys)) → ∀ (i : Nat) (x : Doc), xs[i]? = some x →
      ∃ y, ys[i]? = some y ∧ R x y := by
    intro xs ys h i x hx
    rw [← lookup_countedFrom hkeys xs 0 i] at hx
    obtain ⟨y, hy, hxy⟩ := hR.lookup h hx
    exact ⟨y, (lookup_countedFrom hkeys ys 0 i).symm.trans hy, hxy⟩
  have hle : ∀ {xs ys : List Doc}, R (.record (countedFrom keys 0 xs))
      (.record (countedFrom keys 0 ys)) → xs.length ≤ ys.length := by
    intro xs ys h
    by_contra hlt
    obtain ⟨y, hy, -⟩ := hget h ys.length _ (List.getElem?_eq_getElem (by omega))
    rw [List.getElem?_eq_none (Nat.le_refl _)] at hy
    cases hy
  refine List.forall₂_iff_get.mpr ⟨Nat.le_antisymm (hle h) (hle (hR.symm h)), fun i hi hi' => ?_⟩
  obtain ⟨y, hy, hxy⟩ := hget h i _ (List.getElem?_eq_getElem hi)
  rw [List.getElem?_eq_getElem hi'] at hy
  cases hy
  exact hxy

theorem same_of_lists (hv : Lists s v es f) (hw : Lists s w fs f) : SameChildren R s v w f := by
  obtain ⟨a, as, xs, ha, has, hxs, hlookup⟩ := hv
  obtain ⟨b, bs, ys, hb, hbs, hys, hlookup'⟩ := hw
  obtain ⟨z, hz, hrecords⟩ := hR.lookup hes hlookup
  cases hlookup'.symm.trans hz
  have hpairs := forall₂_of_countedFrom hR caseKeys_injective hrecords
  refine ⟨a, b, as, bs, ha, hb, has, hbs, ?_⟩
  clear has hbs hlookup hlookup' hrecords hz
  induction hpairs generalizing as bs with
  | nil =>
    cases hxs
    cases hys
    exact .nil
  | cons hxy _ ih =>
    cases hxs with
    | cons hx hxs =>
      cases hys with
      | cons hy hys => exact .cons (.inr ⟨_, _, hx, hy, hxy⟩) (ih _ hxs _ hys)

end Told

end Outline

/-! ## Control structures -/

/-- Conditionals, loops and selections. -/
def controlForms : List Form :=
  [.ifStmt, .ifExpr, .forRangeLoopStmt, .forRangeLoopExpr, .asyncForRangeLoopStmt,
   .asyncForRangeLoopExpr, .forCountLoopStmt, .forCountLoopExpr, .whileStmt, .whileExpr,
   .doWhileStmt, .doWhileExpr, .caseStmt, .switchStmt]

/-- The fields of a control structure that hold a child. -/
def childFields : Form → List Field
  | .ifStmt | .ifExpr => [.condition, .thenBranch, .elseBranch]
  | .forRangeLoopStmt | .forRangeLoopExpr | .asyncForRangeLoopStmt | .asyncForRangeLoopExpr =>
    [.loopVariable, .start, .finish, .step, .body]
  | .forCountLoopStmt | .forCountLoopExpr => [.initializer, .condition, .update, .body]
  | .whileStmt | .whileExpr | .doWhileStmt | .doWhileExpr | .caseStmt => [.condition, .body]
  | .switchStmt => [.value]
  | _ => []

/-- The fields of a control structure that hold several children. -/
def childLists : Form → List Field
  | .switchStmt => [.cases]
  | _ => []

/-- The children that a control structure leaves out of its outline. -/
def untold : Form → List Field
  | .forRangeLoopStmt | .asyncForRangeLoopStmt => [.loopVariable]
  | _ => []

namespace Outline

/-- The children that an outline shows under keys of their own. -/
def shownChildren : Form → List (String × Field)
  | .ifStmt | .ifExpr =>
    [("condition", .condition), ("then-block", .thenBranch), ("else-block", .elseBranch)]
  | .forRangeLoopStmt | .asyncForRangeLoopStmt => rangeParts
  | .forRangeLoopExpr | .asyncForRangeLoopExpr => ("var", .loopVariable) :: rangeParts
  | .forCountLoopStmt | .forCountLoopExpr => countParts
  | .caseStmt => [("condition", .condition), ("body", .body)]
  | .switchStmt => [("value", .value)]
  | _ => []

/-- The children whose outlines are spread, and whether they are blocks. -/
def spreadChildren : Form → List (Bool × Field)
  | .forRangeLoopStmt | .asyncForRangeLoopStmt | .forRangeLoopExpr | .asyncForRangeLoopExpr
  | .forCountLoopStmt | .forCountLoopExpr => [(true, .body)]
  | .whileStmt | .whileExpr | .doWhileStmt | .doWhileExpr => [(false, .condition), (true, .body)]
  | _ => []

theorem told_or_untold : ∀ form ∈ controlForms, ∀ f ∈ childFields form,
    f ∈ (shownChildren form).map Prod.snd ∨ f ∈ (spreadChildren form).map Prod.snd ∨
      f ∈ untold form := by
  decide

variable {s : Store} {v w : Value} {x y : Doc} {form : Form}

theorem tells_of_outline (hs : Built s) (hform : form ∈ controlForms)
    (hv : s.formOf? v = some form) (h : run (outline false v) s = .ok x) :
    Tells s v (shownChildren form) (spreadChildren form) (childLists form) x := by
  have hd : ∀ w x, run ((Describe.toDepth plainDisplay s.cells.size []).outline false w) s = .ok x →
      run (outline false w) s = .ok x := fun w x => run_outline_of_toDepth hs
  obtain ⟨n, hn, hnform⟩ := Option.map_eq_some_iff.mp hv
  have hrun : run (ofNode (Describe.toDepth plainDisplay s.cells.size []) false n v) s = .ok x := by
    simpa only [outline, Describe.deep, run_bind, run_store, ok_bind, Describe.toDepth,
      Describe.step, Describe.outlineStep, run_node?, hn] using h
  rw [ofNode, hnform] at hrun
  simp only [controlForms, List.mem_cons, List.not_mem_nil, or_false] at hform
  rcases hform with rfl | rfl | rfl | rfl | rfl | rfl | rfl | rfl | rfl | rfl | rfl | rfl | rfl | rfl
  iterate 2 exact tells_of_conditional hd hrun
  iterate 2 exact tells_of_loop hd hs hv (by decide) (by decide) (by decide) hrun
  iterate 2 exact tells_of_asyncLoop hd hs hv (by decide) (by decide) (by decide) hrun
  iterate 2 exact tells_of_loop hd hs hv (by decide) (by decide) (by decide) hrun
  iterate 4 exact tells_of_whileLoop hd hs hv (by decide) (by decide) hrun
  · exact tells_of_caseBranch hd hrun
  · exact tells_of_switch hd hs hv (by decide) hrun

/-- Whether only nodes are as a hint says, and what is missing. -/
def nodeHint : Hint → Bool
  | .node g => g.isA .node
  | .either .absent (.node g) => g.isA .node
  | _ => false

theorem node_of_meets {h : Hint} (hh : nodeHint h = true) (hw : h.meets s w = true) :
    w = .none ∨ s.isForm w .node = true := by
  rw [nodeHint.eq_def] at hh
  split at hh
  · exact .inr (isForm_of_isA hw hh)
  · simp only [Hint.meets, Bool.or_eq_true, decide_eq_true_eq] at hw
    exact hw.imp_right fun hw => isForm_of_isA hw hh
  · cases hh

theorem shownChildren_nodes : ∀ form ∈ controlForms, ∀ e ∈ shownChildren form,
    (form.kept.any fun k => k.1 = e.2 && nodeHint k.2) = true ∧ form.computed? e.2 = none := by
  decide

theorem node_of_shown (hs : Built s) (hform : form ∈ controlForms) {e : String × Field}
    (he : e ∈ shownChildren form) (hv : s.formOf? v = some form)
    (hw : run (field v e.2) s = .ok w) : w = .none ∨ s.isForm w .node = true := by
  obtain ⟨hkept, hc⟩ := shownChildren_nodes form hform e he
  obtain ⟨⟨f, h⟩, hmem, hnode⟩ := List.any_eq_true.mp hkept
  simp only [Bool.and_eq_true, decide_eq_true_eq] at hnode
  obtain ⟨rfl, hnode⟩ := hnode
  exact node_of_meets hnode (hs.meets_of_form hv hmem hc hw)

/-- The children that are told are the same in nodes with the same outline. -/
theorem same_of_tells {R : Doc → Doc → Prop} (hR : Doc.Comparison R) (hs : Built s)
    (hform : form ∈ controlForms) (hv : s.formOf? v = some form) (hw : s.formOf? w = some form)
    (hx : Tells s v (shownChildren form) (spreadChildren form) (childLists form) x)
    (hy : Tells s w (shownChildren form) (spreadChildren form) (childLists form) y)
    (hxy : R x y) : (∀ e ∈ shownChildren form, SameChild R s v w e.2) ∧
      (∀ e ∈ spreadChildren form, SameChild R s v w e.2) ∧
      ∀ f ∈ childLists form, SameChildren R s v w f := by
  obtain ⟨_, es, _, rfl, hshown, hspread, hlists⟩ := hx
  obtain ⟨_, fs, _, rfl, hshown', hspread', hlists'⟩ := hy
  have hes := hR.content hxy
  refine ⟨fun e he => ?_, fun e he => ?_, fun f hf => ?_⟩
  · refine same_of_shows hR hes hs (fun u a hu ha => ?_) (hshown e he) (hshown' e he)
    rcases hu with rfl | rfl
    · exact node_of_shown hs hform he hv ha
    · exact node_of_shown hs hform he hw ha
  · exact same_of_spreads hR hes (hspread e he) (hspread' e he)
  · exact same_of_lists hR hes (hlists f hf) (hlists' f hf)

end Outline

/-- Control structures of one form with the same full outline have the same children, as long as
the children that are left out of the outline are the same. -/
theorem children_told_iff {R : Doc → Doc → Prop} {s : Store} {v w : Value} {x y : Doc} {form : Form}
    (hR : Doc.Comparison R) (hs : Built s) (hform : form ∈ controlForms)
    (hv : s.formOf? v = some form) (hw : s.formOf? w = some form)
    (hx : run (outline false v) s = .ok x) (hy : run (outline false w) s = .ok y) (hxy : R x y) :
    ((∀ f ∈ childFields form, SameChild R s v w f) ∧
      ∀ f ∈ childLists form, SameChildren R s v w f) ↔
    ∀ f ∈ untold form, SameChild R s v w f := by
  have huntold : ∀ form ∈ controlForms, ∀ f ∈ untold form, f ∈ childFields form := by decide
  obtain ⟨hshown, hspread, hlists⟩ := Outline.same_of_tells hR hs hform hv hw
    (Outline.tells_of_outline hs hform hv hx) (Outline.tells_of_outline hs hform hw hy) hxy
  refine ⟨fun h f hf => h.1 f (huntold form hform f hf), fun h => ⟨fun f hf => ?_, hlists⟩⟩
  rcases Outline.told_or_untold form hform f hf with htold | htold | huntold
  · obtain ⟨e, he, rfl⟩ := List.mem_map.mp htold
    exact hshown e he
  · obtain ⟨e, he, rfl⟩ := List.mem_map.mp htold
    exact hspread e he
  · exact h f huntold

/-- The outline of a loop over a range has nothing of its variable. -/
theorem outline_eq_of_fields {s : Store} {v w : Value}
    (hv : s.formOf? v = some .forRangeLoopStmt) (hw : s.formOf? w = some .forRangeLoopStmt)
    (hfields : ∀ f ∈ [Field.start, .finish, .step, .body, .loc, .comment, .ref, .kind],
      run (field v f) s = run (field w f) s) :
    run (outline false v) s = run (outline false w) s := by
  simp only [List.mem_cons, List.not_mem_nil, or_false, forall_eq_or_imp, forall_eq] at hfields
  obtain ⟨hstart, hfinish, hstep, hbody, hloc, hcomment, href, hkind⟩ := hfields
  have hrule : ∀ {u}, s.formOf? u = some .forRangeLoopStmt → run (outline false u) s =
      run (Outline.loop (Outline.countedKey "FOR-RANGE-LOOP-STMT") Outline.rangeParts
        (Describe.toDepth plainDisplay s.cells.size []) false u) s := by
    intro u hu
    obtain ⟨n, hn, hform⟩ := Option.map_eq_some_iff.mp hu
    simp only [outline, Describe.deep, run_bind, run_store, ok_bind, Describe.toDepth,
      Describe.step, Describe.outlineStep, run_node?, hn, Outline.ofNode, hform]
    rfl
  rw [hrule hv, hrule hw]
  simp only [Outline.loop, Outline.rangeParts, Outline.parts, Outline.part, Describe.fieldOutline,
    Outline.spread, Outline.countedKey, Outline.numbered, Outline.prepare, Outline.metadata,
    Bool.false_eq_true, if_false, run_bind, run_pure, hstart, hfinish, hstep, hbody, hloc, hcomment,
    href, hkind]

/-- What is made for three loops over one range and with one body, of which the third counts
with another variable. -/
def threeLoops : List Making :=
  [.node .int32 [] [],
   .node .inlineVariableDeclaration [] [(.name, .text "i"), (.type, .ref 21)],
   .node .inlineVariableDeclaration [] [(.name, .text "j"), (.type, .ref 21)],
   .node .variableUse [] [(.name, .text "x")], .node .block [] []] ++
  [23, 23, 24].map fun a => .node .forRangeLoopStmt [] [(.loopVariable, .ref a),
    (.start, .ref 25), (.finish, .ref 25), (.step, .ref 25), (.body, .ref 29)]

/-- The first key of a document. -/
def headKey : Doc → String
  | .dict ((.text key, _) :: _) => key
  | _ => ""

/-- The three loops have the same outline, though the third has another variable. -/
theorem threeLoops_outlines : ∃ s x, Store.made? threeLoops = some s ∧
    (∀ a ∈ [31, 32, 33], s.formOf? (.ref a) = some .forRangeLoopStmt ∧
      run (outline false (.ref a)) s = .ok x) ∧
    (∀ a ∈ [31, 32], run (field (.ref a) .loopVariable) s = .ok (.ref 23)) ∧
    run (field (.ref 33) .loopVariable) s = .ok (.ref 24) ∧
    (run (outline false (.ref 23)) s).map headKey = .ok "InlineVariableDeclaration[i, Int32]" ∧
    (run (outline false (.ref 24)) s).map headKey = .ok "InlineVariableDeclaration[j, Int32]" := by
  obtain ⟨s, hs, h⟩ := (Option.any_eq_true _ _).mp (show (Store.made? threeLoops).any (fun s =>
    ([31, 32, 33].all fun a => s.formOf? (.ref a) = some .forRangeLoopStmt &&
      [Field.start, .finish, .step, .body, .loc, .comment, .ref, .kind].all fun f =>
        run (field (.ref a) f) s = run (field (.ref 31) f) s) &&
    (run (outline false (.ref 31)) s).isOk &&
    ([31, 32].all fun a => run (field (.ref a) .loopVariable) s = .ok (.ref 23)) &&
    run (field (.ref 33) .loopVariable) s = .ok (.ref 24) &&
    (run (outline false (.ref 23)) s).map headKey = .ok "InlineVariableDeclaration[i, Int32]" &&
    (run (outline false (.ref 24)) s).map headKey = .ok "InlineVariableDeclaration[j, Int32]") =
      true by decide +kernel)
  simp only [Bool.and_eq_true, List.all_eq_true, decide_eq_true_eq] at h
  obtain ⟨⟨⟨⟨⟨hloops, hok⟩, hfirst⟩, hthird⟩, hi⟩, hj⟩ := h
  obtain ⟨x, hx⟩ := exists_of_isOk hok
  refine ⟨s, x, hs, fun a ha => ⟨(hloops a ha).1, ?_⟩, hfirst, hthird, hi, hj⟩
  rw [outline_eq_of_fields (hloops a ha).1 (hloops 31 (by decide)).1 (hloops a ha).2, hx]

theorem threeLoops_children_told : ∃ s x, Store.made? threeLoops = some s ∧
    run (outline false (.ref 31)) s = .ok x ∧ run (outline false (.ref 32)) s = .ok x ∧
    ∀ f ∈ childFields .forRangeLoopStmt, SameChild Eq s (.ref 31) (.ref 32) f := by
  obtain ⟨s, x, hs, hloops, hvariable, -, hi, -⟩ := threeLoops_outlines
  obtain ⟨hv, hx⟩ := hloops 31 (by decide)
  obtain ⟨hw, hy⟩ := hloops 32 (by decide)
  obtain ⟨z, hz⟩ : ∃ z, run (outline false (.ref 23)) s = .ok z := by
    cases h : run (outline false (.ref 23)) s with
    | ok z => exact ⟨z, rfl⟩
    | error e =>
      rw [h] at hi
      cases hi
  refine ⟨s, x, hs, hx, hy, ((children_told_iff Doc.comparison_eq (built_of_made hs) (by decide) hv
    hw hx hy rfl).mpr fun f hf => ?_).1⟩
  obtain rfl := List.mem_singleton.mp hf
  exact ⟨_, _, hvariable 31 (by decide), hvariable 32 (by decide), .inr ⟨z, z, hz, hz, rfl⟩⟩

/-- Loops with the same outline and different variables. -/
theorem threeLoops_variable_untold : ∃ s x, Store.made? threeLoops = some s ∧
    run (outline false (.ref 31)) s = .ok x ∧ run (outline false (.ref 33)) s = .ok x ∧
    ¬SameChild Eq s (.ref 31) (.ref 33) .loopVariable := by
  obtain ⟨s, x, hs, hloops, hvariable, hother, hi, hj⟩ := threeLoops_outlines
  refine ⟨s, x, hs, (hloops 31 (by decide)).2, (hloops 33 (by decide)).2, ?_⟩
  rintro ⟨a, b, ha, hb, hsame⟩
  cases ha.symm.trans (hvariable 31 (by decide))
  cases hb.symm.trans hother
  rcases hsame with ⟨hnone, -⟩ | ⟨y, z, hy, hz, rfl⟩
  · cases hnone
  · rw [hy] at hi
    rw [hz] at hj
    exact absurd (hi.symm.trans hj) (by decide)

end ProgramTree
