/-
Core expressions are converted to expressions.

`Gives` is what one level of a conversion does: if the nodes below become the terms
that `ρ` says, whatever visit converts them, the node itself becomes one grammatical
term, the same for all those visits. The terms below are a parameter, so each form
is one lemma about one rule, and no lemma knows how deep the tree is.
-/
import ProgramTree.Proofs.Core.Shared

open ProgramTree.Look ProgramTree.Target.Convert

namespace ProgramTree.Target

/-- A visit converts the nodes of one side to these terms. -/
def Agrees {ι : Type} (s : ι → Store) (P : (ι → Value) → Prop) (ρ : (ι → Value) → Term) (i : ι)
    (visit : Visit) : Prop :=
  ∀ w, P w → run (visit (w i)) (s i) = .ok (ρ w)

/-- Whatever visits agree with the terms below, the step gives one term for a place, on all
sides. -/
def Gives {ι : Type} (s : ι → Store) (P : (ι → Value) → Prop) (ρ : (ι → Value) → Term) (r : Role)
    (v : ι → Value) : Prop :=
  ∃ t, Grammatical r t ∧
    ∀ i visit, Agrees s P ρ i visit → run (step visit (v i)) (s i) = .ok t

/-- The terms below stand in their places. -/
def Fitting {ι : Type} (s : ι → Store) (P : (ι → Value) → Prop) (ρ : (ι → Value) → Term) : Prop :=
  ∀ w r, Peers s P r w → Grammatical r (ρ w)

variable {ι : Type} {s : ι → Store} {P : (ι → Value) → Prop} {ρ : (ι → Value) → Term}
  {v w b : ι → Value} {f : Field} {r : Role} {g : Form} {t : Term} {xs : List (ι → Value)} {i : ι}
  {visit : Visit}

/-! ## From rules to steps -/

theorem gives_of_rule {m : Method} (hv : HasForm s v g) (hm : method? g = some m)
    (hp : m.promise.check t = .ok ()) (ht : Grammatical r t)
    (hr : ∀ i visit, Agrees s P ρ i visit → run (m.rule visit (v i)) (s i) = .ok t) :
    Gives s P ρ r v := by
  refine ⟨t, ht, fun i visit hvisit => ?_⟩
  obtain ⟨n, hn, rfl⟩ := Option.map_eq_some_iff.mp (hv i)
  exact run_step hn hm (hr i visit hvisit) hp

/-- The same for a rule that needs fields, all of which are there. -/
theorem gives_of_requiring {promise : Promise} {fields : List Field} {rule : Rule}
    (hv : HasForm s v g) (hm : method? g = some ⟨promise, requiring fields rule⟩)
    (hf : ∀ i, ∀ f ∈ fields, ∃ w, run (field (v i) f) (s i) = .ok w) (hp : promise.check t = .ok ())
    (ht : Grammatical r t)
    (hr : ∀ i visit, Agrees s P ρ i visit → run (rule visit (v i)) (s i) = .ok t) :
    Gives s P ρ r v := by
  refine gives_of_rule hv hm hp ht fun i visit hvisit => ?_
  rw [run_requiring (hf i)]
  exact hr i visit hvisit

/-! ## Children -/

theorem Peers.run_visit (h : Peers s P r w) (hvisit : Agrees s P ρ i visit) :
    run (visit (w i)) (s i) = .ok (ρ w) :=
  hvisit w h.1

/-- The only containers of the fragment are lists of parameters. -/
theorem not_nodeList_of_schema {reqs : List Requirement} (h : schema g = some (r, reqs))
    (hr : r ≠ .parameters) : g.isA .nodeList = false := by
  cases g with
  | nodeList | block | package | program | moduleRoot => exact absurd (show none = some (r, reqs) from h) (by simp)
  | arguments => exact absurd (Prod.mk.inj (Option.some.inj h)).1.symm hr
  | _ => rfl

theorem Peers.run_truthy (h : Peers s P r w) (hr : r ≠ .parameters) (i : ι) :
    run (truthy (w i)) (s i) = .ok true := by
  obtain ⟨g, hg, hrole⟩ := h.2
  obtain ⟨⟨r', reqs⟩, hschema, rfl⟩ := Option.map_eq_some_iff.mp hrole
  exact run_truthy_of_form (hg i) (not_nodeList_of_schema hschema hr)

/-- Children that are walked over become their terms. -/
theorem run_visitEach (hw : Collects s w xs) (hc : ∀ x ∈ xs, Peers s P r x)
    (hvisit : Agrees s P ρ i visit) : run (visitEach visit (w i)) (s i) = .ok (xs.map ρ) :=
  hw.run_forEach i fun x hx => (hc x hx).run_visit hvisit

theorem Fitting.map (hρ : Fitting s P ρ) (hc : ∀ x ∈ xs, Peers s P r x) :
    ∀ t ∈ xs.map ρ, Grammatical r t := by
  intro t ht
  obtain ⟨x, hx, rfl⟩ := List.mem_map.mp ht
  exact hρ x r (hc x hx)

/-- A child that may be missing becomes its term, or nothing. -/
theorem gives_mayChild (hρ : Fitting s P ρ) (h : Asks s P v (.mayChild f .expression)) :
    ∃ t, Grammatical .optional t ∧
      ∀ i visit, Agrees s P ρ i visit → run (visitTrue visit (v i) f .absent) (s i) = .ok t := by
  rcases h with hnone | ⟨w, hw, hc⟩
  · refine ⟨.absent, .absent, fun i visit _ => ?_⟩
    have htrue : run (truthy .none) (s i) = .ok false := rfl
    simp only [visitTrue, run_bind, run_truthyField?_of_ok (hnone i) htrue, ok_bind,
      Bool.false_eq_true, if_false, run_pure]
  · refine ⟨ρ w, .present (hρ w _ hc), fun i visit hvisit => ?_⟩
    simp only [visitTrue, run_bind, run_truthyField?_of_ok (hw i) (hc.run_truthy (by decide) i), ok_bind,
      if_true, hc.run_visit hvisit]

/-! ## Scalars -/

theorem run_doc_text (id : String) (s : Store) : run (Look.doc (.text id)) s = .ok (.text id) := rfl

/-- A scalar is plain data already. -/
theorem run_doc_of_isScalar {w : Value} (h : w.isScalar = true) :
    ∃ d, d.isScalar = true ∧ ∀ s, run (Look.doc w) s = .ok d := by
  cases w with
  | none | bool | int | float | text => exact ⟨_, rfl, fun _ => rfl⟩
  | member | ref => exact absurd h (by simp [Value.isScalar])

theorem run_text_of_isScalar {w : Value} (h : w.isScalar = true) :
    ∃ t, ∀ s, run (Look.text w) s = .ok t := by
  cases w with
  | none | bool | int | float | text => exact ⟨_, fun _ => rfl⟩
  | member | ref => exact absurd h (by simp [Value.isScalar])

/-- A text can be looked up in any table of signs. -/
theorem run_signOf_text {α : Type} (table : String → Option α) (code : String) (s : Store) :
    run (signOf table (.text code)) s = .ok (table code) := by
  simp only [signOf, run_bind, Build.markOf, run_store, ok_bind, Build.mark, run_pure]

/-! ## Types, names and literals -/

/-- Types with a name of their own in the target. -/
theorem namedType_gives {id : String} (hv : HasForm s v g)
    (hm : method? g = giving "Name" (nameOf id)) : Gives s P ρ .expression v :=
  gives_of_rule hv hm rfl (.load id) fun _ _ _ => rfl

theorem dataType_gives (hv : HasForm s v g) (hm : method? g = giving "Name" dataType)
    (h : Asks s P v (.missing .id)) : Gives s P ρ .expression v := by
  refine gives_of_rule hv hm rfl (.load "object") fun i visit _ => ?_
  simp only [dataType, run_bind, run_truthyField?_of_none (h i), ok_bind, run_pure]

theorem variableUse_gives (hv : HasForm s v .variableUse) (h : Asks s P v (.text .name)) :
    Gives s P ρ .expression v := by
  obtain ⟨id, hid⟩ := h
  refine gives_of_rule (t := .name (.text id) .load) hv rfl rfl .name fun i visit _ => ?_
  simp only [variableUse, run_bind, run_field?_of_ok (hid i), ok_bind, run_doc_text, run_pure]

theorem identifier_gives (hv : HasForm s v .identifier) (h : Asks s P v (.text .name)) :
    Gives s P ρ .expression v := by
  obtain ⟨id, hid⟩ := h
  have htext : ∀ i, run (Look.text (.text id)) (s i) = .ok id := fun _ => rfl
  refine gives_of_rule hv rfl rfl (.load id) fun i visit _ => ?_
  simp only [identifier, identifierText, run_bind, run_field?_of_ok (hid i), ok_bind, htext, run_pure]

/-- Literals that are converted by their value. -/
theorem valueLiteral_gives {missing : Doc} (hv : HasForm s v g)
    (hm : method? g = giving "Constant" (valueOr missing)) (h : Asks s P v (.scalar .value)) :
    Gives s P ρ .expression v := by
  obtain ⟨w, hw, hscalar⟩ := h
  obtain ⟨d, hd, hdoc⟩ := run_doc_of_isScalar hscalar
  refine gives_of_rule (t := .constant d) hv hm rfl (.constant hd) fun i visit _ => ?_
  simp only [valueOr, run_bind, run_field?_of_ok (hw i), ok_bind, hdoc, run_pure]

/-- Literals that are converted by the text of their value. -/
theorem textLiteral_gives (hv : HasForm s v g) (hm : method? g = giving "Constant" (textOr ""))
    (h : Asks s P v (.scalar .value)) : Gives s P ρ .expression v := by
  obtain ⟨w, hw, hscalar⟩ := h
  obtain ⟨text, htext⟩ := run_text_of_isScalar hscalar
  refine gives_of_rule hv hm rfl (.textConstant text) fun i visit _ => ?_
  simp only [textOr, run_bind, run_field?_of_ok (hw i), ok_bind, htext, run_pure]

theorem literalNone_gives (hv : HasForm s v .literalNone) : Gives s P ρ .expression v :=
  gives_of_rule (t := .constant .null) hv rfl rfl (.constant rfl) fun _ _ _ => rfl

theorem ellipsis_gives (hv : HasForm s v .ellipsis) : Gives s P ρ .expression v :=
  gives_of_rule (t := .ellipsis) hv rfl rfl .ellipsis fun _ _ _ => rfl

theorem literalDate_gives (hv : HasForm s v .literalDate) (h : Asks s P v (.scalar .value)) :
    Gives s P ρ .expression v := by
  obtain ⟨w, hw, hscalar⟩ := h
  obtain ⟨d, hd, hdoc⟩ := run_doc_of_isScalar hscalar
  let parsed := Term.call (.attribute (Term.load "datetime") "strptime")
    [.constant d, Term.textConstant "%Y-%m-%d"] []
  have hparsed : Grammatical .expression parsed := by
    refine .call (.attribute (.load "datetime")) ?_
    simp only [List.forall_mem_cons]
    exact ⟨.constant hd, .textConstant _, List.forall_mem_nil _⟩
  refine gives_of_requiring (t := .call (.attribute parsed "date") [] []) hv rfl ?_ rfl
    (.call (.attribute hparsed) (List.forall_mem_nil _)) fun i visit _ => ?_
  · simp [hw]
  · simp only [run_bind, run_fieldDoc, hw, ok_bind, hdoc, run_pure, parsed]

/-- Complex numbers keep their two parts in a pair. -/
theorem complexLiteral_gives (hv : HasForm s v g) (hm : method? g = giving "Call" complex)
    (h : Asks s P v (.scalarPair .value)) : Gives s P ρ .expression v := by
  obtain ⟨a, x, y, hw, hcell, hx, hy⟩ := h
  obtain ⟨dx, hdx, hdocx⟩ := run_doc_of_isScalar hx
  obtain ⟨dy, hdy, hdocy⟩ := run_doc_of_isScalar hy
  have hhold := fun i => run_holder_of_not (not_nodeList_of_sequence (hcell i) rfl)
  have hfirst : ∀ i, run (item (.ref (a i)) 0) (s i) = .ok x := fun i => by
    simp only [item, itemAt, run_bind, hhold, ok_bind, plainItem, run_cell (hcell i)]
    rfl
  have hsecond : ∀ i, run (item (.ref (a i)) 1) (s i) = .ok y := fun i => by
    simp only [item, itemAt, run_bind, hhold, ok_bind, plainItem, run_cell (hcell i)]
    rfl
  have hparts : ∀ t ∈ [Term.constant dx, .constant dy], Grammatical .expression t := by
    simp only [List.forall_mem_cons]
    exact ⟨.constant hdx, .constant hdy, List.forall_mem_nil _⟩
  refine gives_of_requiring hv hm ?_ rfl (.callOf "complex" hparts) fun i visit _ => ?_
  · simp [hw]
  · simp only [run_bind, hw, ok_bind, hfirst, hsecond, hdocx, hdocy, run_pure]

variable (hρ : Fitting s P ρ)

include hρ

/-- Lists, sets and tuples. -/
theorem collection_gives {make : List Term → Term} {className : String} (hv : HasForm s v g)
    (hm : method? g = giving className (collection make))
    (hclass : ∀ ts, (make ts).className = className)
    (hmake : ∀ ts, (∀ t ∈ ts, Grammatical .expression t) → Grammatical .expression (make ts))
    (h : Asks s P v (.children .elements .expression)) : Gives s P ρ .expression v := by
  obtain ⟨w, xs, hw, hxs, hc⟩ := h
  refine gives_of_rule (t := make (xs.map ρ)) hv hm ?_ (hmake _ (hρ.map hc))
    fun i visit hvisit => ?_
  · rw [check_oneOf_eq_ok, hclass]
    exact List.mem_singleton_self _
  · simp only [collection, run_bind, run_field?_of_ok (hw i), ok_bind, run_visitEach hxs hc hvisit,
      run_pure]

/-- All keys are converted before the values. -/
theorem dictionary_gives (hv : HasForm s v .literalDict) (h : Asks s P v (.entries .elements)) :
    Gives s P ρ .expression v := by
  obtain ⟨a, es, hw, hcell, hc⟩ := h
  have hentries : ∀ i, run (entries (.ref (a i))) (s i) =
      .ok (es.map fun e => (e.1 i, e.2 i)) := fun i => by
    simp only [entries, run_bind, run_cell (hcell i), ok_bind, run_pure]
  have hzip : (es.map fun e => ρ e.1).zip (es.map fun e => ρ e.2)
      = es.map fun e => (ρ e.1, ρ e.2) :=
    List.zip_map'
  refine gives_of_rule (t := .dict (es.map fun e => (ρ e.1, ρ e.2))) hv rfl rfl
    (.dict ?_ ?_) fun i visit hvisit => ?_
  · intro p hp
    obtain ⟨e, he, rfl⟩ := List.mem_map.mp hp
    exact hρ _ _ (hc e he).1
  · intro p hp
    obtain ⟨e, he, rfl⟩ := List.mem_map.mp hp
    exact hρ _ _ (hc e he).2
  · have hkeys : es.mapM (fun e => run (visit (e.1 i)) (s i)) = .ok (es.map fun e => ρ e.1) :=
      mapM_eq_ok fun e he => (hc e he).1.run_visit hvisit
    have hvalues : es.mapM (fun e => run (visit (e.2 i)) (s i)) = .ok (es.map fun e => ρ e.2) :=
      mapM_eq_ok fun e he => (hc e he).2.run_visit hvisit
    simp only [dictionary, run_bind, run_field?_of_ok (hw i), ok_bind, hentries, run_mapM,
      List.mapM_map, Function.comp_def, hkeys, hvalues, run_pure, hzip]

/-! ## Operators -/

/-- A known sign gives an operation, any other text the call of a function. -/
theorem binary_gives (hv : HasForm s v g) (hm : method? g = some ⟨.oneOf ["BinOp", "Call"], binary⟩)
    (hcode : Asks s P v (.text .opCode)) (hl : Asks s P v (.child .lhs .expression))
    (hr : Asks s P v (.child .rhs .expression)) : Gives s P ρ .expression v := by
  obtain ⟨code, hcode⟩ := hcode
  obtain ⟨l, hl, hcl⟩ := hl
  obtain ⟨r, hr, hcr⟩ := hr
  have hfields : ∀ i, ∀ f ∈ [Field.lhs, .rhs, .opCode], ∃ w, run (field (v i) f) (s i) = .ok w := by
    simp [hl, hr, hcode]
  cases hsign : BinarySign.ofText? code with
  | some sign =>
    refine gives_of_requiring (t := .binary (ρ l) sign (ρ r)) hv hm hfields rfl
      (.binary (hρ _ _ hcl) (hρ _ _ hcr)) fun i visit hvisit => ?_
    simp only [run_bind, hcode, ok_bind, run_signOf_text, hsign, run_visitField, hl, hr,
      hcl.run_visit hvisit, hcr.run_visit hvisit, run_pure]
  | none =>
    obtain ⟨name, hname⟩ : ∃ name, ∀ i, run (operatorName (.text code)) (s i) = .ok name :=
      ⟨_, fun _ => rfl⟩
    have hargs : ∀ t ∈ [ρ l, ρ r], Grammatical .expression t := by
      simp only [List.forall_mem_cons]
      exact ⟨hρ _ _ hcl, hρ _ _ hcr, List.forall_mem_nil _⟩
    refine gives_of_requiring hv hm hfields rfl (.callOf name hargs) fun i visit hvisit => ?_
    simp only [run_bind, hcode, ok_bind, run_signOf_text, hsign, run_visitField, hl, hr,
      hcl.run_visit hvisit, hcr.run_visit hvisit, hname, run_pure]

/-- Operators on truth values, each with its own way to make a term of the operands. -/
theorem ofOperands_gives {make : Term → Term → Term} {className : String} (hv : HasForm s v g)
    (hm : method? g = giving className (ofOperands make))
    (hclass : ∀ l r, (make l r).className = className)
    (hmake : ∀ l r, Grammatical .expression l → Grammatical .expression r →
      Grammatical .expression (make l r))
    (hl : Asks s P v (.child .lhs .expression)) (hr : Asks s P v (.child .rhs .expression)) :
    Gives s P ρ .expression v := by
  obtain ⟨l, hl, hcl⟩ := hl
  obtain ⟨r, hr, hcr⟩ := hr
  refine gives_of_requiring (t := make (ρ l) (ρ r)) hv hm ?_ ?_
    (hmake _ _ (hρ _ _ hcl) (hρ _ _ hcr)) fun i visit hvisit => ?_
  · simp [hl, hr]
  · rw [check_oneOf_eq_ok, hclass]
    exact List.mem_singleton_self _
  · simp only [run_bind, run_visitField, hl, hr, ok_bind, hcl.run_visit hvisit,
      hcr.run_visit hvisit, run_pure]

omit hρ in
theorem grammatical_logical {l r : Term} (sign : LogicalSign) (hl : Grammatical .expression l)
    (hr : Grammatical .expression r) : Grammatical .expression (logical sign l r) := by
  refine .logical (by simp) ?_
  simp only [List.forall_mem_cons]
  exact ⟨hl, hr, List.forall_mem_nil _⟩

theorem walrus_gives (hv : HasForm s v .walrusOp) (hl : Asks s P v (.child .lhs .expression))
    (hr : Asks s P v (.child .rhs .expression)) : Gives s P ρ .expression v := by
  obtain ⟨l, hl, hcl⟩ := hl
  obtain ⟨r, hr, hcr⟩ := hr
  refine gives_of_requiring (t := .named (ρ l).bound (ρ r)) hv rfl ?_ rfl
    (.named (hρ _ _ hcl).bound (hρ _ _ hcr)) fun i visit hvisit => ?_
  · simp [hl, hr]
  · simp only [run_bind, run_visitField, hl, hr, ok_bind, hcl.run_visit hvisit,
      hcr.run_visit hvisit, run_pure]

theorem unary_gives (hv : HasForm s v g) (hm : method? g = giving "UnaryOp" unary)
    (hcode : Asks s P v (.unarySign .opCode)) (hx : Asks s P v (.child .operand .expression)) :
    Gives s P ρ .expression v := by
  obtain ⟨code, sign, hcode, hsign⟩ := hcode
  obtain ⟨x, hx, hc⟩ := hx
  refine gives_of_requiring (t := .unary sign (ρ x)) hv hm ?_ rfl (.unary (hρ _ _ hc))
    fun i visit hvisit => ?_
  · simp [hcode, hx]
  · simp only [run_bind, hcode, ok_bind, run_signOf_text, hsign, run_visitField, hx,
      hc.run_visit hvisit, run_pure]

theorem negation_gives (hv : HasForm s v .notOp) (hx : Asks s P v (.child .operand .expression)) :
    Gives s P ρ .expression v := by
  obtain ⟨x, hx, hc⟩ := hx
  refine gives_of_requiring (t := negated (ρ x)) hv rfl ?_ rfl (.unary (hρ _ _ hc))
    fun i visit hvisit => ?_
  · simp [hx]
  · simp only [run_bind, run_visitField, hx, ok_bind, hc.run_visit hvisit, run_pure]

/-- The sign of a comparison, equality if the text is none. -/
def compareSignOf (code : String) : CompareSign :=
  (CompareSign.ofText? code).getD .eq

theorem compare_gives (hv : HasForm s v .compareOp) (hl : Asks s P v (.child .left .expression))
    (h : Asks s P v .comparisons) : Gives s P ρ .expression v := by
  obtain ⟨l, hl, hcl⟩ := hl
  obtain ⟨o, w, xs, codes, ho, hops, hw, hxs, hc, hlen⟩ := h
  have hsigns : ∀ i, run (forEach (o i) fun op => do
      return (← signOf CompareSign.ofText? op).getD .eq) (s i) = .ok (codes.map compareSignOf) := by
    intro i
    rw [(hops i).run_forEach, List.map_map, List.mapM_map]
    refine mapM_eq_ok fun code _ => ?_
    simp only [Function.comp_apply, run_bind, run_signOf_text, ok_bind, run_pure, compareSignOf]
  refine gives_of_requiring (t := .compare (ρ l) (codes.map compareSignOf) (xs.map ρ)) hv rfl ?_ rfl
    (.compare (by simp [hlen]) (hρ _ _ hcl) (hρ.map hc)) fun i visit hvisit => ?_
  · simp [hl, ho, hw]
  · simp only [run_bind, ho, ok_bind, hsigns, hw, run_visitEach hxs hc hvisit, run_visitField, hl,
      hcl.run_visit hvisit, run_pure]

/-! ## Wrapped values -/

theorem ofValue_gives {make : Term → Term} {promise : Promise} (hv : HasForm s v g)
    (hm : method? g = some ⟨promise, ofValue make⟩)
    (hp : ∀ t, Grammatical .expression t → promise.check (make t) = .ok ())
    (hmake : ∀ t, Grammatical .expression t → Grammatical .expression (make t))
    (h : Asks s P v (.child .value .expression)) : Gives s P ρ .expression v := by
  obtain ⟨x, hx, hc⟩ := h
  have ht := hρ _ _ hc
  refine gives_of_requiring hv hm ?_ (hp _ ht) (hmake _ ht) fun i visit hvisit => ?_
  · simp [hx]
  · simp only [run_bind, run_visitField, hx, ok_bind, hc.run_visit hvisit, run_pure]

/-- A value that may be missing, in an expression or a statement. -/
theorem ofOptionalValue_gives {make : Term → Term} {className : String} (hv : HasForm s v g)
    (hm : method? g = giving className (ofOptionalValue make))
    (hclass : ∀ t, (make t).className = className)
    (hmake : ∀ t, Grammatical .optional t → Grammatical r (make t))
    (h : Asks s P v (.mayChild .value .expression)) : Gives s P ρ r v := by
  obtain ⟨t, ht, hrun⟩ := gives_mayChild hρ h
  refine gives_of_rule hv hm ?_ (hmake t ht) fun i visit hvisit => ?_
  · rw [check_oneOf_eq_ok, hclass]
    exact List.mem_singleton_self _
  · simp only [ofOptionalValue, run_bind, hrun i visit hvisit, ok_bind, run_pure]

theorem typeCast_gives (hv : HasForm s v .typeCastExpr)
    (htype : Asks s P v (.child .targetType .expression))
    (h : Asks s P v (.child .expr .expression)) : Gives s P ρ .expression v := by
  obtain ⟨y, hy, hcy⟩ := htype
  obtain ⟨x, hx, hcx⟩ := h
  have hargs : ∀ t ∈ [ρ y, ρ x], Grammatical .expression t := by
    simp only [List.forall_mem_cons]
    exact ⟨hρ _ _ hcy, hρ _ _ hcx, List.forall_mem_nil _⟩
  refine gives_of_requiring hv rfl ?_ rfl (.callOf "cast" hargs) fun i visit hvisit => ?_
  · simp [hy, hx]
  · simp only [run_bind, run_visitField, hy, hx, ok_bind, hcy.run_visit hvisit,
      hcx.run_visit hvisit, run_pure]

/-! ## Subscripts -/

/-- A part of a slice is there unless it is the literal for what is not there. -/
theorem gives_slicePart (h : Asks s P v (.child f .expression)) :
    ∃ t, Grammatical .optional t ∧
      ∀ i visit, Agrees s P ρ i visit → run (slicePart visit (v i) f) (s i) = .ok t := by
  obtain ⟨w, hw, hc⟩ := h
  obtain ⟨g, hg, -⟩ := hc.2
  have hisA : ∀ i, run (isA (w i) .literalNone) (s i) = .ok (g.isA .literalNone) := fun i => by
    rw [run_isA, hg, Option.any_some]
  cases hnone : g.isA .literalNone with
  | true =>
    refine ⟨.absent, .absent, fun i visit _ => ?_⟩
    simp only [slicePart, run_bind, run_field?_of_ok (hw i), ok_bind, hisA, hnone, if_true, run_pure]
  | false =>
    refine ⟨ρ w, .present (hρ _ _ hc), fun i visit hvisit => ?_⟩
    simp only [slicePart, run_bind, run_field?_of_ok (hw i), ok_bind, hisA, hnone,
      Bool.false_eq_true, if_false, hc.run_visit hvisit]

/-- An index if there is one, else a slice. -/
theorem subscript_gives (hv : HasForm s v .subscriptExpr)
    (hvalue : Asks s P v (.child .value .expression))
    (hindex : Asks s P v (.child .index .expression))
    (hlower : Asks s P v (.child .lower .expression))
    (hupper : Asks s P v (.child .upper .expression))
    (hstep : Asks s P v (.child .step .expression)) : Gives s P ρ .expression v := by
  obtain ⟨x, hx, hc⟩ := hvalue
  obtain ⟨index, hti, hi⟩ := gives_slicePart hρ hindex
  obtain ⟨lower, htl, hl⟩ := gives_slicePart hρ hlower
  obtain ⟨upper, htu, hu⟩ := gives_slicePart hρ hupper
  obtain ⟨step, hts, hs⟩ := gives_slicePart hρ hstep
  have hfields : ∀ i, ∀ f ∈ [Field.value], ∃ w, run (field (v i) f) (s i) = .ok w := by simp [hx]
  cases hti with
  | absent =>
    refine gives_of_requiring (t := .subscript (ρ x) (.slice lower upper step)) hv rfl hfields rfl
      (.subscript (hρ _ _ hc) (.slice htl htu hts)) fun i visit hvisit => ?_
    simp only [run_bind, run_visitField, hx, ok_bind, hc.run_visit hvisit, hi i visit hvisit,
      hl i visit hvisit, hu i visit hvisit, hs i visit hvisit, run_pure]
  | present hexpr =>
    refine gives_of_requiring (t := .subscript (ρ x) index) hv rfl hfields rfl
      (.subscript (hρ _ _ hc) hexpr) fun i visit hvisit => ?_
    simp only [run_bind, run_visitField, hx, ok_bind, hc.run_visit hvisit, hi i visit hvisit]
    -- The index is an expression, so it is not the absent term.
    cases hexpr <;> rfl

/-! ## Calls and functions without a name -/

omit hρ in
theorem run_calledName?_text (id : String) (s : Store) :
    run (calledName? (.text id)) s = .ok none := rfl

omit hρ in
/-- The arguments of a call; none at all counts as false and gives none. -/
theorem run_callArguments (h : Holding s v .args w) (hxs : Collects s w xs)
    (hc : ∀ x ∈ xs, Peers s P r x) (hvisit : Agrees s P ρ i visit) :
    run (callArguments visit (v i)) (s i) = .ok (xs.map ρ) := by
  simp only [callArguments, run_bind, run_truthyField?_of_ok (h i) (hxs.run_truthy i), ok_bind]
  cases xs with
  | nil => rfl
  | cons x xs => exact run_visitEach hxs hc hvisit

theorem call_gives (hv : HasForm s v .functionCall) (hfn : Asks s P v (.text .fn))
    (hargs : Asks s P v (.children .args .expression)) : Gives s P ρ .expression v := by
  obtain ⟨id, hid⟩ := hfn
  obtain ⟨w, xs, hw, hxs, hc⟩ := hargs
  refine gives_of_rule hv rfl rfl (.callOf id (hρ.map hc)) fun i visit hvisit => ?_
  simp only [call, run_bind, run_field?_of_ok (hid i), ok_bind, function, run_calledName?_text,
    run_pure, run_callArguments hw hxs hc hvisit]
  rfl

omit hρ in
/-- The names of the nodes of a collection. -/
theorem exists_names (h : ∀ x ∈ xs, ∃ id, Holding s x .name fun _ => .text id) :
    ∃ name : (ι → Value) → String, ∀ x ∈ xs, Holding s x .name fun _ => .text (name x) := by
  classical
  refine ⟨fun x => if hx : x ∈ xs then (h x hx).choose else "", fun x hx => ?_⟩
  simp only [hx, dif_pos]
  exact (h x hx).choose_spec

omit hρ in
/-- Parameters without types. -/
theorem grammatical_bareParameters (xs : List (ι → Value)) (name : (ι → Value) → String) :
    Grammatical .parameters (.arguments (xs.map fun x => .arg (.text (name x)) .absent)) := by
  refine .arguments fun t ht => ?_
  obtain ⟨x, -, rfl⟩ := List.mem_map.mp ht
  exact .arg .absent

theorem lambda_gives (hv : HasForm s v .lambdaExpr) (hparams : Asks s P v (.named .params))
    (hbody : Asks s P v (.child .body .expression)) : Gives s P ρ .expression v := by
  obtain ⟨w, xs, hw, hxs, hnamed⟩ := hparams
  obtain ⟨name, hname⟩ := exists_names hnamed
  obtain ⟨x, hx, hc⟩ := hbody
  have hwalk : ∀ i, run (forEach (w i) fun p => do
      return Term.arg (← fieldDoc p .name) .absent) (s i)
        = .ok (xs.map fun x => .arg (.text (name x)) .absent) := by
    refine fun i => hxs.run_forEach i fun p hp => ?_
    simp only [run_bind, run_fieldDoc, hname p hp, ok_bind, run_doc_text, run_pure]
  refine gives_of_requiring hv rfl ?_ rfl
    (.lambda (grammatical_bareParameters xs name) (hρ _ _ hc)) fun i visit hvisit => ?_
  · simp [hx]
  · simp only [run_bind, run_truthyField?_of_ok (hw i) (hxs.run_truthy i), ok_bind]
    cases xs with
    | nil => simp [hx, hc.run_visit hvisit]
    | cons y ys =>
      simp only [List.length_cons, Nat.add_one_ne_zero, bne_iff_ne, ne_eq, not_false_eq_true,
        if_true, run_bind, hwalk, ok_bind, run_visitField, hx, hc.run_visit hvisit, run_pure]

/-! ## Branches and comprehensions -/

theorem gives_branch (h : Asks s P v (.branch f)) :
    ∃ t, Grammatical .expression t ∧
      ∀ i visit, Agrees s P ρ i visit → run (branch visit (v i) f) (s i) = .ok t := by
  obtain ⟨b, l, x, hb, hx, hc⟩ := h
  refine ⟨ρ x, hρ _ _ hc, fun i visit hvisit => ?_⟩
  have htrue : run (truthy (b i)) (s i) = .ok true := (Contains.container (hx i)).run_truthy
  rw [run_branch (hb i) htrue (hx i)]
  exact hc.run_visit hvisit

theorem gives_mayBranch (h : Asks s P v (.mayBranch f)) :
    ∃ t, Grammatical .expression t ∧
      ∀ i visit, Agrees s P ρ i visit → run (branch visit (v i) f) (s i) = .ok t := by
  rcases h with hnone | h
  · refine ⟨.constant .null, .constant rfl, fun i visit _ => ?_⟩
    have hfalse : run (truthy .none) (s i) = .ok false := rfl
    simp only [branch, run_bind, run_truthyField?_of_ok (hnone i) hfalse, ok_bind, Bool.false_eq_true,
      if_false, run_pure]
  · exact gives_branch hρ h

theorem conditional_gives (hv : HasForm s v .ifExpr)
    (hcond : Asks s P v (.child .condition .expression)) (hthen : Asks s P v (.branch .thenBranch))
    (helse : Asks s P v (.mayBranch .elseBranch)) : Gives s P ρ .expression v := by
  obtain ⟨x, hx, hc⟩ := hcond
  obtain ⟨body, hbody, hb⟩ := gives_branch hρ hthen
  obtain ⟨orElse, horElse, ho⟩ := gives_mayBranch hρ helse
  refine gives_of_requiring hv rfl ?_ rfl (.conditional (hρ _ _ hc) hbody horElse)
    fun i visit hvisit => ?_
  · simp [hx]
  · simp only [run_bind, hb i visit hvisit, ho i visit hvisit, ok_bind, run_visitField, hx,
      hc.run_visit hvisit, run_pure]

theorem clause_gives (hv : HasForm s v .comprehensionClause)
    (htarget : Asks s P v (.child .target .expression))
    (hiter : Asks s P v (.child .iterable .expression))
    (hconds : Asks s P v (.children .conditions .expression))
    (hasync : Asks s P v (.boolean .isAsync)) : Gives s P ρ .clause v := by
  obtain ⟨x, hx, hcx⟩ := htarget
  obtain ⟨y, hy, hcy⟩ := hiter
  obtain ⟨w, xs, hw, hxs, hc⟩ := hconds
  obtain ⟨b, hb⟩ := hasync
  have hbool : ∀ i, run (truthy (.bool b)) (s i) = .ok b := fun _ => rfl
  refine gives_of_requiring (t := .comprehension (ρ x) (ρ y) (xs.map ρ) b) hv rfl ?_ rfl
    (.comprehension (hρ _ _ hcx) (hρ _ _ hcy) (hρ.map hc)) fun i visit hvisit => ?_
  · simp [hx, hy]
  · simp only [run_bind, run_visitField, hx, hy, ok_bind, hcx.run_visit hvisit,
      hcy.run_visit hvisit, run_field?_of_ok (hw i), run_visitEach hxs hc hvisit,
      run_truthyField?_of_ok (hb i) (hbool i), run_pure]
    cases b <;> rfl

theorem comprehension_gives {make : Term → List Term → Term} {className : String}
    (hv : HasForm s v g) (hm : method? g = giving className (comprehension make))
    (hclass : ∀ e cs, (make e cs).className = className)
    (hmake : ∀ e cs, Grammatical .expression e → (∀ c ∈ cs, Grammatical .clause c) →
      Grammatical .expression (make e cs))
    (helement : Asks s P v (.child .element .expression))
    (hclauses : Asks s P v (.children .generators .clause)) : Gives s P ρ .expression v := by
  obtain ⟨x, hx, hcx⟩ := helement
  obtain ⟨w, xs, hw, hxs, hc⟩ := hclauses
  refine gives_of_requiring (t := make (ρ x) (xs.map ρ)) hv hm ?_ ?_
    (hmake _ _ (hρ _ _ hcx) (hρ.map hc)) fun i visit hvisit => ?_
  · simp [hx, hw]
  · rw [check_oneOf_eq_ok, hclass]
    exact List.mem_singleton_self _
  · simp only [run_bind, run_visitField, hx, ok_bind, hcx.run_visit hvisit, hw,
      run_visitEach hxs hc hvisit, run_pure]

end ProgramTree.Target
