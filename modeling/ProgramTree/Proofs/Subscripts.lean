/-
Two readings of a subscript.

A subscript holds an index and three bounds, and what was not given is a literal that stands for
nothing. The outline and the conversion each decide which of them to show: the outline looks at
the lower bound and shows the index when there is none (`labels_of_outline`), the conversion
looks at the index and shows the bounds when there is none (`shownParts_of_term`). So they do not
always agree: `a[:10]` has an index in its outline, and an index hides the bounds of a term.
`subscript_readings_agree_iff` says when the two show the same.
-/
import ProgramTree.Proofs.Terms.Sorts

namespace ProgramTree

open Look Target Target.Convert

variable {s : Store} {v w : Value} {f : Field} {b : Bool} {x : Doc} {t : Term}

/-! ## What is given -/

/-- A part of a subscript was given: it is not the literal that stands for nothing. -/
def Gives (s : Store) (v : Value) (f : Field) : Prop :=
  ∃ w, run (field v f) s = .ok w ∧ s.isForm w .literalNone = false

open Classical in
/-- The label of a part that was given. -/
noncomputable def labelIf (s : Store) (v : Value) (f : Field) (label : String) : List String :=
  if Gives s v f then [label] else []

/-- A look that asks whether a part was given. -/
theorem run_isA_literalNone (hw : run (field v f) s = .ok w) :
    run (isA w .literalNone) s = .ok true ∧ ¬Gives s v f ∨
      run (isA w .literalNone) s = .ok false ∧ Gives s v f := by
  rw [run_isA]
  cases hform : s.isForm w .literalNone with
  | true =>
    refine .inl ⟨congrArg Except.ok hform, ?_⟩
    rintro ⟨u, hu, hnone⟩
    obtain rfl := Except.ok.inj (hu.symm.trans hw)
    rw [hform] at hnone
    cases hnone
  | false => exact .inr ⟨congrArg Except.ok hform, w, hw, hform⟩

/-- A subscript holds an expression for each of its parts. -/
theorem exists_part (hs : Built s) (hv : s.formOf? v = some .subscriptExpr)
    (hf : f ∈ [Field.value, .index, .lower, .upper, .step]) : ∃ w, run (field v f) s = .ok w := by
  have hkept : ∀ f ∈ [Field.value, .index, .lower, .upper, .step],
      (f, .node .expr) ∈ Form.kept .subscriptExpr ∧ Form.computed? .subscriptExpr f = none := by
    decide
  obtain ⟨w, hw, -⟩ := hs.exists_field hv (hkept f hf).1 (hkept f hf).2
  exact ⟨w, hw⟩

/-! ## Outlines -/

/-- The keys of a document that is a record. -/
def Doc.keys (d : Doc) : List String :=
  match d.entries with
  | .ok es => es.map Prod.fst
  | .error _ => []

/-- The labels of the children in an outline. -/
def labels (simplified : Bool) (x : Doc) : List String :=
  match x.entries with
  | .ok [(_, content)] =>
    if simplified then content.keys
    else match content.entries with
      | .ok ((_, content) :: _) => content.keys
      | _ => []
  | _ => []

theorem labels_of_prepare {d : Describe} {key : String} {es : List (String × Doc)}
    (h : run (Outline.prepare d b v key (.record es)) s = .ok x) :
    labels b x = es.map Prod.fst := by
  cases b with
  | true =>
    cases h
    simp [labels, Doc.single, Doc.keys]
  | false =>
    simp only [Outline.prepare, Bool.false_eq_true, if_false, run_bind, run_pure] at h
    obtain ⟨m, -, h⟩ := bind_eq_ok.mp h
    cases h
    simp [labels, Doc.single, Doc.keys]

theorem key_of_part {d : Describe} {key : String} {e : String × Doc}
    (h : run (Outline.part d b v key f) s = .ok e) : e.1 = key := by
  simp only [Outline.part, run_bind, run_pure] at h
  obtain ⟨y, -, h⟩ := bind_eq_ok.mp h
  cases h
  rfl

/-- A bound stands in the outline if it was given. -/
theorem keys_of_bound {d : Describe} {key : String} {es : List (String × Doc)}
    (h : run (Outline.bound d b v key f) s = .ok es) : es.map Prod.fst = labelIf s v f key := by
  simp only [Outline.bound, run_bind] at h
  obtain ⟨w, hw, h⟩ := bind_eq_ok.mp h
  rcases run_isA_literalNone hw with ⟨hnone, hgives⟩ | ⟨hnone, hgives⟩
  · simp only [hnone, ok_bind, if_true] at h
    cases h
    rw [labelIf, if_neg hgives]
    rfl
  · simp only [hnone, ok_bind, Bool.false_eq_true, if_false, run_bind, run_pure] at h
    obtain ⟨e, he, h⟩ := bind_eq_ok.mp h
    cases h
    rw [labelIf, if_pos hgives, List.map_singleton, key_of_part he]

open Classical in
/-- The outline of a subscript shows what is indexed, the index unless there is a lower bound,
and the bounds that were given. -/
theorem labels_of_outline (hv : s.formOf? v = some .subscriptExpr)
    (h : run (outline b v) s = .ok x) : labels b x =
      ["indexed", if Gives s v .lower then "lower" else "index"] ++
        labelIf s v .upper "upper" ++ labelIf s v .step "step" := by
  obtain ⟨n, hn, hform⟩ := Option.map_eq_some_iff.mp hv
  have hrule : run (Outline.subscript (Describe.toDepth plainDisplay s.cells.size []) b v) s =
      .ok x := by
    simp only [outline, Describe.deep, run_bind, run_store, ok_bind, Describe.toDepth,
      Describe.step, Describe.outlineStep, run_node?, hn, Outline.ofNode, hform] at h
    exact h
  -- The two branches differ in the first child only.
  have hrest : ∀ {d : Describe} {indexed : String × Doc} {key : String} {f : Field},
      run (do
        let lower ← Outline.part d b v key f
        let upper ← Outline.bound d b v "upper" .upper
        let step ← Outline.bound d b v "step" .step
        Outline.prepare d b v "SubscriptExpr" (.record ([indexed, lower] ++ upper ++ step))) s =
          .ok x → labels b x =
        [indexed.1, key] ++ labelIf s v .upper "upper" ++ labelIf s v .step "step" := by
    intro d indexed key f h
    simp only [run_bind, bind_eq_ok] at h
    obtain ⟨lower, hlower, upper, hupper, step, hstep, h⟩ := h
    rw [labels_of_prepare h, List.map_append, List.map_append, keys_of_bound hupper,
      keys_of_bound hstep, List.map_cons, List.map_singleton, key_of_part hlower]
  rw [Outline.subscript, run_bind] at hrule
  obtain ⟨indexed, hindexed, hrule⟩ := bind_eq_ok.mp hrule
  rw [run_bind] at hrule
  obtain ⟨w, hw, hrule⟩ := bind_eq_ok.mp hrule
  rcases run_isA_literalNone hw with ⟨hnone, hgives⟩ | ⟨hnone, hgives⟩
  · rw [run_bind, hnone, ok_bind, if_pos rfl] at hrule
    rw [hrest hrule, key_of_part hindexed, if_neg hgives]
  · rw [run_bind, hnone, ok_bind, if_neg Bool.false_ne_true] at hrule
    rw [hrest hrule, key_of_part hindexed, if_pos hgives]

/-! ## Terms -/

/-- The parts that the term of a subscript shows: its index, or the bounds of its slice. -/
def shownParts : Term → List String
  | .subscript _ (.slice lower upper step) =>
    [("lower", lower), ("upper", upper), ("step", step)].filterMap fun e =>
      if e.2.className = "NoneType" then none else some e.1
  | .subscript _ _ => ["index"]
  | _ => []

/-- No node is converted to a slice or to nothing. -/
theorem not_slice_of_toDepth {depth : Nat} (hs : Built s) (h : run (toDepth depth v) s = .ok t) :
    t.className ≠ "Slice" ∧ t.className ≠ "NoneType" := by
  have hclasses : ∀ form : Form, "Slice" ∉ classes form ∧ "NoneType" ∉ classes form := by
    intro form
    cases form <;> decide
  obtain ⟨-, -, n, -, -, hclass⟩ := exists_className_mem hs h
  exact ⟨fun heq => (hclasses n.form).1 (heq ▸ hclass),
    fun heq => (hclasses n.form).2 (heq ▸ hclass)⟩

/-- A part of a slice is there exactly if it was given. -/
theorem slicePart_eq_ok {depth : Nat} (hs : Built s) (hw : run (field v f) s = .ok w)
    (h : run (slicePart (toDepth depth) v f) s = .ok t) :
    Gives s v f ∧ t.className ≠ "Slice" ∧ t.className ≠ "NoneType" ∨
      ¬Gives s v f ∧ t = .absent := by
  simp only [slicePart, run_bind, run_field?_of_ok hw, ok_bind] at h
  rcases run_isA_literalNone hw with ⟨hnone, hgives⟩ | ⟨hnone, hgives⟩
  · rw [hnone, ok_bind, if_pos rfl] at h
    exact .inr ⟨hgives, (Except.ok.inj h).symm⟩
  · rw [hnone, ok_bind, if_neg Bool.false_ne_true] at h
    exact .inl ⟨hgives, not_slice_of_toDepth hs h⟩

open Classical in
/-- The term of a subscript shows the index if it was given, and otherwise the bounds that
were. -/
theorem shownParts_of_term (hs : Built s) (hv : s.formOf? v = some .subscriptExpr)
    (h : run (term v) s = .ok t) : shownParts t =
      if Gives s v .index then ["index"]
      else labelIf s v .lower "lower" ++ labelIf s v .upper "upper" ++
        labelIf s v .step "step" := by
  obtain ⟨n, hn, hform⟩ := Option.map_eq_some_iff.mp hv
  rw [run_term] at h
  obtain ⟨n', m, hn', hm, hrule, -⟩ := step_eq_ok h
  obtain rfl := Option.some.inj (hn.symm.trans hn')
  rw [hform] at hm
  cases hm
  have hpart : ∀ f ∈ [Field.value, .index, .lower, .upper, .step], ∃ w, run (field v f) s = .ok w :=
    fun f => exists_part hs hv
  rw [subscript, run_requiring fun f hf => hpart f (by simp_all), run_bind] at hrule
  obtain ⟨value, -, hrule⟩ := bind_eq_ok.mp hrule
  rw [run_bind] at hrule
  obtain ⟨index, hindex, hrule⟩ := bind_eq_ok.mp hrule
  obtain ⟨w, hw⟩ := hpart .index (by simp)
  rcases slicePart_eq_ok hs hw hindex with ⟨hgives, hslice, hnone⟩ | ⟨hgives, rfl⟩
  · rw [if_pos hgives]
    cases index with
    | absent => exact absurd rfl hnone
    | slice => exact absurd rfl hslice
    | _ =>
      cases hrule
      rfl
  · rw [if_neg hgives]
    simp only [run_bind, bind_eq_ok] at hrule
    obtain ⟨lower, hlower, upper, hupper, step, hstep, hrule⟩ := hrule
    cases hrule
    have hlabel : ∀ {f : Field} {u : Term} (key : String), f ∈ [Field.lower, .upper, .step] →
        run (slicePart (toDepth s.cells.size) v f) s = .ok u →
        (if u.className = "NoneType" then none else some key).toList = labelIf s v f key := by
      intro f u key hf hu
      obtain ⟨w, hw⟩ := hpart f (List.mem_cons_of_mem _ (List.mem_cons_of_mem _ hf))
      rcases slicePart_eq_ok hs hw hu with ⟨hgives, -, hnone⟩ | ⟨hgives, rfl⟩
      · rw [if_neg hnone, labelIf, if_pos hgives]
        rfl
      · rw [labelIf, if_neg hgives]
        rfl
    rw [← hlabel "lower" (by simp) hlower, ← hlabel "upper" (by simp) hupper,
      ← hlabel "step" (by simp) hstep]
    simp only [shownParts, List.filterMap_cons, List.filterMap_nil]
    grind

/-- **Subscripts.** The outline and the term of a subscript agree on whether it has an index just
if exactly one of the index and the lower bound was given. They show the same parts if the index
was given alone, or if the lower bound was given and the index was not; in all other cases one of
the two shows a part that the other does not. -/
theorem subscript_readings_agree_iff (hs : Built s) (hv : s.formOf? v = some .subscriptExpr)
    (hx : run (outline b v) s = .ok x) (ht : run (term v) s = .ok t) :
    (("index" ∈ labels b x ↔ "index" ∈ shownParts t) ↔ (Gives s v .index ↔ ¬Gives s v .lower)) ∧
      (labels b x = "indexed" :: shownParts t ↔
        Gives s v .index ∧ ¬Gives s v .lower ∧ ¬Gives s v .upper ∧ ¬Gives s v .step ∨
          ¬Gives s v .index ∧ Gives s v .lower) := by
  rw [labels_of_outline hv hx, shownParts_of_term hs hv ht]
  simp only [labelIf]
  by_cases hindex : Gives s v .index <;> by_cases hlower : Gives s v .lower <;>
    by_cases hupper : Gives s v .upper <;> by_cases hstep : Gives s v .step <;>
    simp [hindex, hlower, hupper, hstep]

/-- The subscripts `a[:10]` and `a[10:]`. -/
def twoSlices : List Making :=
  [.node .variableUse [] [(.name, .text "a")], .node .literalInt32 [] [(.value, .int 10)],
   .node .subscriptExpr [] [(.value, .ref 21), (.upper, .ref 25)],
   .node .subscriptExpr [] [(.value, .ref 21), (.lower, .ref 25)]]

/-- Whether a node has an outline and a term, with these labels and parts. -/
def readsAs (s : Store) (v : Value) (keys parts : List String) : Bool :=
  match run (outline true v) s, run (term v) s with
  | .ok x, .ok t => labels true x = keys && shownParts t = parts
  | _, _ => false

/-- The outline of `a[:10]` shows an index, and its term is a slice. -/
theorem sliceTo_shows_index : (Store.made? twoSlices).any (fun s => decide (
    s.formOf? (.ref 29) = some .subscriptExpr) &&
    readsAs s (.ref 29) ["indexed", "index", "upper"] ["upper"]) = true := by
  decide +kernel

/-- Both show the lower bound of `a[10:]` and nothing else, and no index was given. -/
theorem sliceFrom_readings_agree : ∃ s x t, Store.made? twoSlices = some s ∧
    s.formOf? (.ref 42) = some .subscriptExpr ∧ run (outline true (.ref 42)) s = .ok x ∧
    run (term (.ref 42)) s = .ok t ∧ labels true x = "indexed" :: shownParts t ∧
    ¬Gives s (.ref 42) .index := by
  have hnodes : (Store.made? twoSlices).any (fun s => decide (
      s.formOf? (.ref 42) = some .subscriptExpr) &&
      readsAs s (.ref 42) ["indexed", "lower"] ["lower"]) = true := by
    decide +kernel
  obtain ⟨s, hs, htest⟩ := (Option.any_eq_true _ _).mp hnodes
  obtain ⟨hv, htest⟩ := Bool.and_eq_true_iff.mp htest
  have hv := of_decide_eq_true hv
  rw [readsAs] at htest
  split at htest
  · next x t hx ht =>
    obtain ⟨hlabels, hparts⟩ := Bool.and_eq_true_iff.mp htest
    have hlabels := of_decide_eq_true hlabels
    have hparts := of_decide_eq_true hparts
    have hsame : labels true x = "indexed" :: shownParts t := by rw [hlabels, hparts]
    obtain ⟨-, hiff⟩ := subscript_readings_agree_iff (built_of_made hs) hv hx ht
    refine ⟨s, x, t, hs, hv, hx, ht, hsame, fun hindex => ?_⟩
    rcases hiff.mp hsame with - | ⟨hnot, -⟩
    · have hshown := shownParts_of_term (built_of_made hs) hv ht
      rw [if_pos hindex, hparts] at hshown
      exact absurd hshown (by decide)
    · exact hnot hindex
  · cases htest

end ProgramTree
