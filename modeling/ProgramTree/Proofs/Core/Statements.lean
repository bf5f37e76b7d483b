/-
Core statements are converted to statements.

The same as for expressions, with blocks: a block of the fragment has nothing in it
that cannot be converted, so the net under bodies catches nothing, and every node of
the block stands in the body (`gives_block`).
-/
import ProgramTree.Proofs.Core.Expressions

open ProgramTree.Look ProgramTree.Target.Convert

namespace ProgramTree.Target

variable {ι : Type} {s : ι → Store} {P : (ι → Value) → Prop} {ρ : (ι → Value) → Term}
  {v w b : ι → Value} {f : Field} {r : Role} {g : Form} {t : Term} {xs : List (ι → Value)} {i : ι}
  {visit : Visit}

/-! ## Blocks -/

theorem contribution_of_statement (h : Grammatical .statement t) : contribution t = [t] := by
  simp only [contribution, h.sort_statement]

theorem contribution_of_expression (h : Grammatical .expression t) :
    contribution t = [.expr t] := by
  simp only [contribution, h.sort_expression]

/-- The body that terms make. -/
def shownBody (ts : List Term) : List Term :=
  let parts := ts.flatMap contribution
  if parts.isEmpty then [.pass] else parts

theorem shownBody_ne_nil (ts : List Term) : shownBody ts ≠ [] := by
  simp only [shownBody]
  split
  · exact List.cons_ne_nil _ _
  · next h => exact fun hnil => h (by rw [hnil]; rfl)

/-- Statements and expressions make a body of statements. -/
theorem grammatical_shownBody {ts : List Term}
    (h : ∀ t ∈ ts, Grammatical .statement t ∨ Grammatical .expression t) :
    ∀ t ∈ shownBody ts, Grammatical .statement t := by
  intro t ht
  simp only [shownBody] at ht
  split at ht
  · obtain rfl := List.mem_singleton.mp ht
    exact .pass
  · obtain ⟨u, hu, hmem⟩ := List.mem_flatMap.mp ht
    rcases h u hu with hs | he
    · rw [contribution_of_statement hs, List.mem_singleton] at hmem
      exact hmem ▸ hs
    · rw [contribution_of_expression he, List.mem_singleton] at hmem
      exact hmem ▸ .expr he

/-- If every node of a block is converted, the body is made of all of them. -/
theorem bodyOf_map {α : Type} {ys : List α} {a : α → Value} {s : Store} {τ : α → Term}
    (h : ∀ y ∈ ys, run (visit (a y)) s = .ok (τ y)) :
    bodyOf visit s (ys.map a) = shownBody (ys.map τ) := by
  have hparts : (ys.map a).flatMap (added visit s) = (ys.map τ).flatMap contribution := by
    rw [List.flatMap_map, List.flatMap_map]
    refine List.flatMap_congr fun y hy => ?_
    simp only [added, h y hy]
  simp only [bodyOf, shownBody, hparts]

theorem bodyOf_eq_shownBody {s : Store} {xs : List Value} {ρ : Value → Term}
    (h : ∀ x ∈ xs, run (visit x) s = .ok (ρ x)) : bodyOf visit s xs = shownBody (xs.map ρ) := by
  rw [← bodyOf_map (a := id) h, List.map_id]

variable (hρ : Fitting s P ρ)

include hρ

/-- **Blocks.** The body of a block of the fragment is made of all its nodes. -/
theorem gives_block (h : PeerBlocks s P b) :
    ∃ body, body ≠ [] ∧ (∀ t ∈ body, Grammatical .statement t) ∧
      ∀ i visit, Agrees s P ρ i visit → run (block visit (b i)) (s i) = .ok body := by
  obtain ⟨l, xs, hxs, hc⟩ := h
  refine ⟨shownBody (xs.map ρ), shownBody_ne_nil _, grammatical_shownBody ?_, ?_⟩
  · intro t ht
    obtain ⟨x, hx, rfl⟩ := List.mem_map.mp ht
    exact (hc x hx).imp (hρ x .statement) (hρ x .expression)
  · intro i visit hvisit
    rw [run_block (hxs i), bodyOf_map]
    exact fun x hx => (hc x hx).elim (·.run_visit hvisit) (·.run_visit hvisit)

theorem gives_fieldBlock (h : Asks s P v (.block f)) :
    ∃ body, body ≠ [] ∧ (∀ t ∈ body, Grammatical .statement t) ∧
      ∀ i visit, Agrees s P ρ i visit → run (fieldBlock visit (v i) f) (s i) = .ok body := by
  obtain ⟨b, hb, hblock⟩ := h
  obtain ⟨body, hne, hbody, hrun⟩ := gives_block hρ hblock
  refine ⟨body, hne, hbody, fun i visit hvisit => ?_⟩
  simp only [fieldBlock, run_bind, run_has_of_ok (hb i), ok_bind, if_true, hb, hrun i visit hvisit]

/-! ## Functions -/

theorem argument_gives (hv : HasForm s v .argument) (hname : Asks s P v (.text .name))
    (htype : Asks s P v (.child .type .expression)) : Gives s P ρ .parameter v := by
  obtain ⟨id, hid⟩ := hname
  obtain ⟨x, hx, hc⟩ := htype
  refine gives_of_requiring (t := .arg (.text id) (ρ x)) hv rfl ?_ rfl
    (.arg (.present (hρ _ _ hc))) fun i visit hvisit => ?_
  · simp [hid]
  · simp only [visitTrue, run_bind, run_truthyField?_of_ok (hx i) (hc.run_truthy (by decide) i), ok_bind,
      if_true, hc.run_visit hvisit, run_fieldDoc, hid, run_doc_text, run_pure]

theorem arguments_gives (hv : HasForm s v .arguments)
    (h : Asks s P v (.children .nodes .parameter)) : Gives s P ρ .parameters v := by
  obtain ⟨w, xs, hw, hxs, hc⟩ := h
  refine gives_of_requiring hv rfl ?_ rfl (.arguments (hρ.map hc)) fun i visit hvisit => ?_
  · simp [hw]
  · have hwalk : run (forEach (w i) visit) (s i) = .ok (xs.map ρ) := run_visitEach hxs hc hvisit
    simp only [run_bind, visitNodes, hw, ok_bind, hwalk, run_pure]

omit hρ in
/-- Parameters that are grammatical stay as they are when they get their places. -/
theorem placedArguments_eq {args : Term} (h : Grammatical .parameters args) :
    placedArguments args = .ok args := by
  cases h with
  | @arguments ts hts =>
    have hplaced : ts.mapM Term.placed = .ok ts := by
      have hmap := mapM_eq_ok (f := Term.placed) (g := id) fun t ht => (hts t ht).placed
      rwa [List.map_id] at hmap
    simp only [placedArguments, hplaced]
    rfl

theorem functionDef_gives (hv : HasForm s v .functionDef)
    (hname : Asks s P v (.inside .prototype (.text .name)))
    (hargs : Asks s P v (.inside .prototype (.child .args .parameters)))
    (hreturns : Asks s P v (.inside .prototype (.mayChild .returnType .expression)))
    (hbody : Asks s P v (.block .body)) : Gives s P ρ .statement v := by
  obtain ⟨p, hp, id, hid⟩ := hname
  obtain ⟨p', hp', x, hx, hc⟩ := hargs
  obtain rfl := hp.unique hp'
  obtain ⟨p'', hp'', hreturns⟩ := hreturns
  obtain rfl := hp.unique hp''
  obtain ⟨returns, htr, hr⟩ := gives_mayChild hρ hreturns
  obtain ⟨b, hb, hblock⟩ := hbody
  obtain ⟨body, hne, htb, hrun⟩ := gives_block hρ hblock
  have hta := hρ _ _ hc
  refine gives_of_requiring (t := .functionDef (.text id) (ρ x) body returns true) hv rfl ?_ rfl
    (.functionDef hta hne htb htr) fun i visit hvisit => ?_
  · simp [hp]
  · simp only [run_bind, hp, ok_bind, run_visitField, hx, hc.run_visit hvisit, hr i visit hvisit, hb,
      hrun i visit hvisit, run_fieldDoc, hid, run_doc_text, run_ofOutcome, placedArguments_eq hta,
      run_pure]

omit hρ in
/-- The nodes of a list of parameters. -/
theorem run_parameterNodes (hw : Holding s v .nodes w) (hxs : Collects s w xs) (i : ι) :
    run (parameterNodes (v i)) (s i) = .ok (xs.map (· i)) := by
  have hitems : run (items (w i)) (s i) = .ok (xs.map (· i)) := hxs.run_forEach i fun x _ => rfl
  simp only [parameterNodes, run_bind, run_field?_of_ok (hw i), ok_bind, hitems]

theorem prototype_gives (hv : HasForm s v .functionPrototype) (hname : Asks s P v (.text .name))
    (hargs : Asks s P v (.inside .args (.children .nodes .parameter)))
    (hreturns : Asks s P v (.mayChild .returnType .expression)) : Gives s P ρ .statement v := by
  obtain ⟨id, hid⟩ := hname
  obtain ⟨a, ha, w, xs, hw, hxs, hc⟩ := hargs
  obtain ⟨returns, htr, hr⟩ := gives_mayChild hρ hreturns
  refine gives_of_requiring
    (t := .functionDef (.text id) (.arguments (xs.map ρ)) [.pass] returns false) hv rfl ?_ rfl
    (.functionDef (.arguments (hρ.map hc)) (List.cons_ne_nil _ _) ?_ htr) fun i visit hvisit => ?_
  · simp [hid]
  · exact List.forall_mem_singleton.mpr .pass
  · have hmap : run ((xs.map (· i)).mapM visit) (s i) = .ok (xs.map ρ) := by
      rw [run_mapM, List.mapM_map]
      exact mapM_eq_ok fun x hx => (hc x hx).run_visit hvisit
    simp only [run_bind, run_field?_of_ok (ha i), ok_bind, run_parameterNodes hw hxs, hmap,
      hr i visit hvisit, run_fieldDoc, hid, run_doc_text, run_pure]

theorem asyncFunctionDef_gives (hv : HasForm s v .functionAsyncDef)
    (hname : Asks s P v (.text .name))
    (hargs : Asks s P v (.inside .prototype (.inside .args (.named .nodes))))
    (hreturns : Asks s P v (.inside .prototype (.mayChild .returnType .expression)))
    (hbody : Asks s P v (.block .body)) : Gives s P ρ .statement v := by
  obtain ⟨id, hid⟩ := hname
  obtain ⟨p, hp, a, ha, w, xs, hw, hxs, hnamed⟩ := hargs
  obtain ⟨p', hp', hreturns⟩ := hreturns
  obtain rfl := hp.unique hp'
  obtain ⟨returns, htr, hr⟩ := gives_mayChild hρ hreturns
  obtain ⟨body, hne, htb, hrun⟩ := gives_fieldBlock hρ hbody
  obtain ⟨name, hname⟩ := exists_names hnamed
  have hparams : ∀ i, run (bareParameters (xs.map (· i)) (some (.text "arg"))) (s i)
      = .ok (xs.map fun x => .arg (.text (name x)) .absent) := fun i => by
    rw [bareParameters, run_mapM, List.mapM_map]
    refine mapM_eq_ok fun x hx => ?_
    simp only [Function.comp_apply, run_bind, run_field?_of_ok (hname x hx i), ok_bind,
      run_doc_text, run_pure]
  have hwhole : ∀ i, run (isWholeFunction (v i)) (s i) = .ok true := fun i => by
    have hall : run (hasAll (v i) [.name, .prototype]) (s i) = .ok true :=
      run_hasAll (by simp [hid, hp])
    simp only [isWholeFunction, run_bind, hall, ok_bind, if_true, hp, run_has_of_ok (ha i)]
  refine gives_of_rule (m := ⟨.oneOf ["AsyncFunctionDef"], asyncFunctionDef⟩)
    (t := .asyncFunctionDef (.text id) (.arguments (xs.map fun x => .arg (.text (name x)) .absent))
      body returns false)
    hv rfl rfl (.asyncFunctionDef (grammatical_bareParameters xs name) hne htb htr)
    fun i visit hvisit => ?_
  simp only [asyncFunctionDef, run_bind, hwhole, ok_bind, Bool.not_true, Bool.false_eq_true,
    if_false, hp, ha, run_parameterNodes hw hxs, hparams, hr i visit hvisit, hrun i visit hvisit,
    run_fieldDoc, hid, run_doc_text, run_pure]

/-! ## Classes -/

theorem classDef_gives (hv : HasForm s v .classDefStmt) (hname : Asks s P v (.text .name))
    (habstract : Asks s P v (.boolean .isAbstract)) (hbody : Asks s P v (.block .body)) :
    Gives s P ρ .statement v := by
  obtain ⟨id, hid⟩ := hname
  obtain ⟨a, ha⟩ := habstract
  obtain ⟨body, hne, htb, hrun⟩ := gives_fieldBlock hρ hbody
  have hbool : ∀ i, run (truthy (.bool a)) (s i) = .ok a := fun _ => rfl
  refine gives_of_requiring
    (t := .classDef (.text id) (if a then [Term.load "ABC"] else []) body []) hv rfl ?_ rfl
    (.classDef ?_ hne htb (List.forall_mem_nil _)) fun i visit hvisit => ?_
  · simp [hid]
  · intro t ht
    cases a with
    | true =>
      obtain rfl := List.mem_singleton.mp ht
      exact .load "ABC"
    | false => exact absurd ht (List.not_mem_nil)
  · simp only [run_bind, run_truthyField?_of_ok (ha i) (hbool i), ok_bind, hrun i visit hvisit, run_fieldDoc,
      hid, run_doc_text, run_pure]
    cases a <;> rfl

omit hρ in
/-- Each declaration of an enumeration is a member with a value of its own. -/
theorem enumDecl_gives (hv : HasForm s v .enumDeclStmt) (hname : Asks s P v (.text .name))
    (hattrs : Asks s P v (.declared .attributes)) : Gives s P ρ .statement v := by
  obtain ⟨id, hid⟩ := hname
  obtain ⟨w, xs, hw, hxs, hdecl⟩ := hattrs
  obtain ⟨name, hname⟩ := exists_names fun x hx => (hdecl x hx).2
  let member (x : ι → Value) : Term :=
    .assign [Term.store (.text (name x))] (Term.callOf "auto" []) false
  have hmember : ∀ x, Grammatical .statement (member x) := by
    intro x
    refine .assign (List.cons_ne_nil _ _) ?_ (.callOf "auto" (List.forall_mem_nil _))
    exact List.forall_mem_singleton.mpr .name
  have hwalk : ∀ (i : ι) (visit : Visit),
      run (forEach (w i) (enumMember visit)) (s i) = .ok (xs.map fun x => [member x]) := by
    intro i visit
    refine hxs.run_forEach i fun x hx => ?_
    have hisA : (((s i).formOf? (x i)).any fun h => h.isA .variableDeclaration) = true := by
      rw [(hdecl x hx).1 i]
      rfl
    simp only [enumMember, run_bind, run_isA, hisA, ok_bind, if_true, run_fieldDoc, hname x hx,
      run_doc_text, run_pure, member]
  have hflat : (xs.map fun x => [member x]).flatten = xs.map member := by
    rw [← List.flatMap_def, ← List.map_eq_flatMap]
  let body := if (xs.map member).isEmpty then [Term.pass] else xs.map member
  have hbody : body ≠ [] ∧ ∀ t ∈ body, Grammatical .statement t := by
    simp only [body]
    split
    · refine ⟨List.cons_ne_nil _ _, fun t ht => ?_⟩
      obtain rfl := List.mem_singleton.mp ht
      exact .pass
    · next h =>
      refine ⟨fun hnil => h (by rw [hnil]; rfl), fun t ht => ?_⟩
      obtain ⟨x, -, rfl⟩ := List.mem_map.mp ht
      exact hmember x
  refine gives_of_requiring (t := .classDef (.text id) [Term.load "Enum"] body []) hv rfl ?_ rfl
    (.classDef ?_ hbody.1 hbody.2 (List.forall_mem_nil _)) fun i visit _ => ?_
  · simp [hid, hw]
  · exact List.forall_mem_singleton.mpr (.load "Enum")
  · simp only [run_bind, hw, ok_bind, hwalk i visit, hflat, run_fieldDoc, hid, run_doc_text, run_pure,
      body]

/-- The attributes of a structure are its body; without any, it does nothing. -/
theorem structDecl_gives (hv : HasForm s v g) (hm : method? g = giving "ClassDef" structDecl)
    (hname : Asks s P v (.text .name)) (hattrs : Asks s P v (.children .attributes .statement)) :
    Gives s P ρ .statement v := by
  obtain ⟨id, hid⟩ := hname
  obtain ⟨w, xs, hw, hxs, hc⟩ := hattrs
  have hfields : ∀ i, ∀ f ∈ [Field.name], ∃ w, run (field (v i) f) (s i) = .ok w := by simp [hid]
  have hdecorators : ∀ t ∈ [Term.load "dataclass"], Grammatical .expression t := by
    exact List.forall_mem_singleton.mpr (.load "dataclass")
  cases xs with
  | nil =>
    have hfalse : ∀ i, run (truthy (w i)) (s i) = .ok false := hxs.run_truthy
    refine gives_of_requiring (t := .classDef (.text id) [] [.pass] [Term.load "dataclass"]) hv hm
      hfields rfl (.classDef (List.forall_mem_nil _) (List.cons_ne_nil _ _) ?_ hdecorators)
      fun i visit hvisit => ?_
    · exact List.forall_mem_singleton.mpr .pass
    · simp only [run_bind, run_truthyField?_of_ok (hw i) (hfalse i), ok_bind, Bool.false_eq_true,
        if_false, run_fieldDoc, hid, run_doc_text, run_pure]
  | cons y ys =>
    have htrue : ∀ i, run (truthy (w i)) (s i) = .ok true := hxs.run_truthy
    refine gives_of_requiring
      (t := .classDef (.text id) [] ((y :: ys).map ρ) [Term.load "dataclass"]) hv hm hfields rfl
      (.classDef (List.forall_mem_nil _) (List.cons_ne_nil _ _) (hρ.map hc) hdecorators)
      fun i visit hvisit => ?_
    simp only [run_bind, run_truthyField?_of_ok (hw i) (htrue i), ok_bind, if_true,
      run_visitEach hxs hc hvisit, run_fieldDoc, hid, run_doc_text, run_pure]

/-! ## Assignments and simple statements -/

/-- The hint that the term of a type makes. -/
def hintOf : Term → Term
  | .name id c => .name id c
  | .attribute t a => .attribute t a
  | .subscript t i => .subscript t i
  | _ => Term.load "object"

/-- The hint of a declaration is its type or the name that stands for any type. -/
theorem gives_hint (h : Asks s P v (.child .type .expression)) :
    ∃ t, Grammatical .expression t ∧
      ∀ i visit, Agrees s P ρ i visit → run (hint visit (v i)) (s i) = .ok t := by
  obtain ⟨x, hx, hc⟩ := h
  have ht := hρ _ _ hc
  have hrun : ∀ i visit, Agrees s P ρ i visit →
      run (hint visit (v i)) (s i) = .ok (hintOf (ρ x)) := by
    intro i visit hvisit
    simp only [hint, run_bind, run_truthyField?_of_ok (hx i) (hc.run_truthy (by decide) i), ok_bind,
      if_true, hc.run_visit hvisit]
    cases ρ x <;> rfl
  refine ⟨_, ?_, hrun⟩
  unfold hintOf
  split
  · next heq => exact heq ▸ ht
  · next heq => exact heq ▸ ht
  · next heq => exact heq ▸ ht
  · exact .load "object"

theorem declaration_gives (hv : HasForm s v .variableDeclaration) (hname : Asks s P v (.text .name))
    (htype : Asks s P v (.child .type .expression))
    (hvalue : Asks s P v (.child .value .expression)) : Gives s P ρ .statement v := by
  obtain ⟨id, hid⟩ := hname
  obtain ⟨hinted, hth, hh⟩ := gives_hint hρ htype
  obtain ⟨x, hx, hc⟩ := hvalue
  refine gives_of_requiring (t := .annAssign (Term.store (.text id)) hinted (ρ x)) hv rfl ?_ rfl
    (.annAssign .name hth (.present (hρ _ _ hc))) fun i visit hvisit => ?_
  · simp [hid]
  · simp only [run_bind, run_fieldDoc, hid, ok_bind, run_doc_text, hh i visit hvisit,
      run_field?_of_ok (hx i)]
    have hval := hc.run_visit hvisit
    -- A child is a node, so the value is not missing.
    obtain ⟨-, g, hg, -⟩ := hc
    have hform := hg i
    generalize x i = value at hval hform ⊢
    cases value with
    | none => simp [Store.formOf?, Store.nodeOf?] at hform
    | _ => simp only [run_bind, hval, ok_bind, run_pure]

theorem variableAssignment_gives (hv : HasForm s v .variableAssignment)
    (hname : Asks s P v (.text .name)) (hvalue : Asks s P v (.child .value .expression)) :
    Gives s P ρ .statement v := by
  obtain ⟨id, hid⟩ := hname
  obtain ⟨x, hx, hc⟩ := hvalue
  refine gives_of_requiring (t := .assign [Term.store (.text id)] (ρ x) false) hv rfl ?_ rfl
    (.assign (List.cons_ne_nil _ _) ?_ (hρ _ _ hc)) fun i visit hvisit => ?_
  · simp [hid, hx]
  · exact List.forall_mem_singleton.mpr .name
  · simp only [run_bind, run_fieldDoc, hid, ok_bind, run_doc_text, run_visitField, hx,
      hc.run_visit hvisit, run_pure]

omit hρ in
/-- The targets of an assignment all have names. The induction is on the targets
still to come. -/
theorem run_boundNames {name : (ι → Value) → String} (targets : Value) (count : Nat)
    (h : ∀ x ∈ xs, Holding s x .name fun _ => .text (name x)) (i : ι) :
    run (boundNames targets count (xs.map (· i))) (s i) =
      .ok (some (xs.map fun x => Term.store (.text (name x)))) := by
  induction xs generalizing count with
  | nil =>
    simp only [boundNames, run_bind, run_leave, ok_bind, run_pure, List.map_nil]
  | cons x xs ih =>
    have hx := h x (List.mem_cons_self ..)
    have hxs := ih (count + 1) fun y hy => h y (List.mem_cons_of_mem _ hy)
    simp only [boundNames, run_bind, run_field?_of_ok (hx i), ok_bind, run_doc_text, hxs, run_pure,
      Option.map_some, List.map_cons]

theorem assignment_gives (hv : HasForm s v .assignmentExpr)
    (htargets : Asks s P v (.someNamed .targets))
    (hvalue : Asks s P v (.child .value .expression)) : Gives s P ρ .statement v := by
  obtain ⟨w, xs, hw, hxs, hne, hnamed⟩ := htargets
  obtain ⟨name, hname⟩ := exists_names hnamed
  obtain ⟨x, hx, hc⟩ := hvalue
  have htrue : ∀ i, run (truthy (w i)) (s i) = .ok true := fun i => by
    rw [hxs.run_truthy i]
    simp [hne]
  have hitems : ∀ i, run (items (w i)) (s i) = .ok (xs.map (· i)) := fun i =>
    hxs.run_forEach i fun x _ => rfl
  refine gives_of_rule (m := ⟨.oneOf ["Assign"], assignment⟩)
    (t := .assign (xs.map fun x => Term.store (.text (name x))) (ρ x) false) hv rfl rfl
    (.assign (by simp [hne]) ?_ (hρ _ _ hc)) fun i visit hvisit => ?_
  · intro t ht
    obtain ⟨y, -, rfl⟩ := List.mem_map.mp ht
    exact .name
  · simp only [assignment, run_bind, run_truthyField?_of_ok (hw i) (htrue i), ok_bind, if_true,
      hitems, run_boundNames (w i) 0 hname, run_field?_of_ok (hx i), hc.run_visit hvisit, run_pure]

theorem augmented_gives (hv : HasForm s v .augAssign)
    (htarget : Asks s P v (.child .target .expression)) (hcode : Asks s P v (.text .opCode))
    (hvalue : Asks s P v (.child .value .expression)) : Gives s P ρ .statement v := by
  obtain ⟨y, hy, hcy⟩ := htarget
  obtain ⟨code, hcode⟩ := hcode
  obtain ⟨x, hx, hcx⟩ := hvalue
  refine gives_of_requiring
    (t := .augAssign (ρ y).bound ((BinarySign.ofAugmented? code).getD .add) (ρ x)) hv rfl ?_ rfl
    (.augAssign (hρ _ _ hcy).bound (hρ _ _ hcx)) fun i visit hvisit => ?_
  · simp [hy, hx, hcode]
  · simp only [run_bind, run_visitField, hy, hx, ok_bind, hcy.run_visit hvisit,
      hcx.run_visit hvisit, hcode, run_signOf_text, run_pure]

theorem delete_gives (hv : HasForm s v .deleteStmt)
    (h : Asks s P v (.children .value .expression)) : Gives s P ρ .statement v := by
  obtain ⟨w, xs, hw, hxs, hc⟩ := h
  refine gives_of_requiring (t := .delete (xs.map ρ)) hv rfl ?_ rfl (.delete (hρ.map hc))
    fun i visit hvisit => ?_
  · simp [hw]
  · simp only [run_bind, hw, ok_bind, run_visitEach hxs hc hvisit, run_pure]

/-! ## Imports -/

omit hρ in
theorem importName_gives (hv : HasForm s v .aliasExpr) (hname : Asks s P v (.text .name))
    (has : Asks s P v (.label .asname)) : Gives s P ρ .imported v := by
  obtain ⟨id, hid⟩ := hname
  obtain ⟨w, d, hw, hd, hdoc⟩ : ∃ w d, Holding s v .asname (fun _ => w) ∧ Doc.isName d = true ∧
      ∀ i, run (Look.doc w) (s i) = .ok d := by
    rcases has with hnone | ⟨as, has⟩
    · exact ⟨.none, .null, hnone, rfl, fun _ => rfl⟩
    · exact ⟨.text as, .text as, has, rfl, fun _ => rfl⟩
  refine gives_of_rule (t := .imported (.text id) d) hv rfl rfl (.imported hd) fun i visit _ => ?_
  simp only [importName, run_bind, run_field?_of_ok (hid i), ok_bind, run_doc_text,
    run_field?_of_ok (hw i), hdoc, run_pure]

theorem importStmt_gives (hv : HasForm s v .importStmt)
    (h : Asks s P v (.children .names .imported)) : Gives s P ρ .statement v := by
  obtain ⟨w, xs, hw, hxs, hc⟩ := h
  refine gives_of_rule (t := .importing (xs.map ρ)) hv rfl rfl (.importing (hρ.map hc))
    fun i visit hvisit => ?_
  simp only [importStmt, run_bind, run_field?_of_ok (hw i), ok_bind, run_visitEach hxs hc hvisit,
    run_pure]

theorem importFrom_gives (hv : HasForm s v .importFromStmt)
    (h : Asks s P v (.children .names .imported)) (hsource : Asks s P v (.text .moduleName))
    (hlevel : Asks s P v (.integer .level)) : Gives s P ρ .statement v := by
  obtain ⟨w, xs, hw, hxs, hc⟩ := h
  obtain ⟨source, hsource⟩ := hsource
  obtain ⟨n, hn⟩ := hlevel
  have hdoc : ∀ i, run (Look.doc (.int n)) (s i) = .ok (.int n) := fun _ => rfl
  refine gives_of_requiring (t := .importFrom (.text source) (xs.map ρ) (.int n)) hv rfl ?_ rfl
    (.importFrom (hρ.map hc)) fun i visit hvisit => ?_
  · simp [hw, hsource]
  · simp only [run_bind, hw, ok_bind, run_visitEach hxs hc hvisit, run_field?_of_ok (hn i), hdoc,
      run_fieldDoc, hsource, run_doc_text, run_pure]

/-! ## Branches and loops -/

/-- The second branch of a conditional statement: an empty one counts as missing. -/
theorem ifStmt_gives (hv : HasForm s v .ifStmt) (hcond : Asks s P v (.child .condition .expression))
    (hthen : Asks s P v (.block .thenBranch)) (helse : Asks s P v (.mayBlock .elseBranch)) :
    Gives s P ρ .statement v := by
  obtain ⟨x, hx, hc⟩ := hcond
  obtain ⟨body, hne, htb, hrun⟩ := gives_fieldBlock hρ hthen
  have hfields : ∀ i, ∀ f ∈ [Field.condition], ∃ w, run (field (v i) f) (s i) = .ok w := by
    simp [hx]
  have hmissing : ∀ {w}, Holding s v .elseBranch w →
      (∀ i, run (truthy (w i)) (s i) = .ok false) → Gives s P ρ .statement v := by
    intro w hw hfalse
    refine gives_of_requiring (t := .ifStmt (ρ x) body []) hv rfl hfields rfl
      (.ifStmt (hρ _ _ hc) hne htb (List.forall_mem_nil _)) fun i visit hvisit => ?_
    simp only [run_bind, hrun i visit hvisit, ok_bind, run_truthyField?_of_ok (hw i) (hfalse i),
      Bool.false_eq_true, if_false, run_visitField, hx, hc.run_visit hvisit, run_pure]
  rcases helse with hnone | ⟨b, hb, hblock⟩
  · exact hmissing hnone fun _ => rfl
  · obtain ⟨orElse, -, hto, ho⟩ := gives_block hρ hblock
    obtain ⟨l, ys, hys, -⟩ := hblock
    cases ys with
    | nil => exact hmissing hb fun i => (Contains.container (hys i)).run_truthy
    | cons y ys =>
      have htrue : ∀ i, run (truthy (b i)) (s i) = .ok true := fun i =>
        (Contains.container (hys i)).run_truthy
      refine gives_of_requiring (t := .ifStmt (ρ x) body orElse) hv rfl hfields rfl
        (.ifStmt (hρ _ _ hc) hne htb hto) fun i visit hvisit => ?_
      simp only [run_bind, hrun i visit hvisit, ok_bind, run_truthyField?_of_ok (hb i) (htrue i),
        if_true, ho i visit hvisit, run_visitField, hx, hc.run_visit hvisit, run_pure]

theorem whileStmt_gives (hv : HasForm s v .whileStmt)
    (hcond : Asks s P v (.child .condition .expression)) (hbody : Asks s P v (.block .body)) :
    Gives s P ρ .statement v := by
  obtain ⟨x, hx, hc⟩ := hcond
  obtain ⟨body, hne, htb, hrun⟩ := gives_fieldBlock hρ hbody
  refine gives_of_requiring hv rfl ?_ rfl (.whileLoop (hρ _ _ hc) hne htb) fun i visit hvisit => ?_
  · simp [hx]
  · simp only [run_bind, run_visitField, hx, ok_bind, hc.run_visit hvisit, hrun i visit hvisit,
      run_pure]

theorem doWhileStmt_gives (hv : HasForm s v .doWhileStmt)
    (hcond : Asks s P v (.child .condition .expression)) (hbody : Asks s P v (.block .body)) :
    Gives s P ρ .statement v := by
  obtain ⟨x, hx, hc⟩ := hcond
  obtain ⟨b, hb, -⟩ := id hbody
  obtain ⟨body, hne, htb, hrun⟩ := gives_fieldBlock hρ hbody
  have hleaving : Grammatical .statement (.ifStmt (negated (ρ x)) [.breakLoop] []) := by
    refine .ifStmt (.unary (hρ _ _ hc)) (List.cons_ne_nil _ _) ?_ (List.forall_mem_nil _)
    exact List.forall_mem_singleton.mpr .breakLoop
  refine gives_of_requiring (t := .whileLoop (.constant (.bool true))
      (body ++ [.ifStmt (negated (ρ x)) [.breakLoop] []])) hv rfl ?_ rfl
    (.whileLoop (.constant rfl) (by simp) ?_) fun i visit hvisit => ?_
  · simp [hx, hb]
  · intro t ht
    rcases List.mem_append.mp ht with ht | ht
    · exact htb t ht
    · obtain rfl := List.mem_singleton.mp ht
      exact hleaving
  · simp only [run_bind, hrun i visit hvisit, ok_bind, run_visitField, hx, hc.run_visit hvisit,
      run_pure]

omit hρ in
/-- A converted step is an expression, so it is never left out of the range. -/
theorem isTrue_of_expression (h : Grammatical .expression t) : t.isTrue = true := by
  cases h <;> rfl

theorem rangeStmt_gives (hv : HasForm s v .forRangeLoopStmt)
    (hvar : Asks s P v (.inside .loopVariable (.text .name)))
    (hstart : Asks s P v (.child .start .expression))
    (hfinish : Asks s P v (.child .finish .expression))
    (hstep : Asks s P v (.child .step .expression)) (hbody : Asks s P v (.block .body)) :
    Gives s P ρ .statement v := by
  obtain ⟨y, hy, id, hid⟩ := hvar
  obtain ⟨x₁, hx₁, hc₁⟩ := hstart
  obtain ⟨x₂, hx₂, hc₂⟩ := hfinish
  obtain ⟨x₃, hx₃, hc₃⟩ := hstep
  obtain ⟨body, hne, htb, hrun⟩ := gives_fieldBlock hρ hbody
  have htrue := isTrue_of_expression (hρ _ _ hc₃)
  have hbounds : ∀ t ∈ [ρ x₁, ρ x₂] ++ [ρ x₃], Grammatical .expression t := by
    simp only [List.cons_append, List.nil_append, List.forall_mem_cons]
    exact ⟨hρ _ _ hc₁, hρ _ _ hc₂, hρ _ _ hc₃, List.forall_mem_nil _⟩
  refine gives_of_requiring (t := .forLoop (Term.store (.text id))
      (Term.callOf "range" ([ρ x₁, ρ x₂] ++ [ρ x₃])) body false) hv rfl ?_ rfl
    (.forLoop .name (.callOf "range" hbounds) hne htb) fun i visit hvisit => ?_
  · simp [hy, hx₁]
  · simp only [run_bind, hy, ok_bind, run_fieldDoc, hid, run_doc_text, run_visitField, hx₁, hx₂,
      hc₁.run_visit hvisit, hc₂.run_visit hvisit, run_field?_of_ok (hx₃ i), hc₃.run_visit hvisit,
      htrue, if_true, hrun i visit hvisit, run_pure]

/-- The end of a counted loop: the first thing that its condition compares with, or
ten if there is none. -/
theorem gives_countEnd (h : Asks s P v (.mayItems .comparators .expression)) :
    ∃ t, Grammatical .expression t ∧
      ∀ i visit, Agrees s P ρ i visit → run (countEnd visit (v i)) (s i) = .ok t := by
  rcases h with hnone | ⟨a, xs, hw, hcell, hc⟩
  · refine ⟨.constant (.int 10), .constant rfl, fun i visit _ => ?_⟩
    simp only [countEnd, run_bind, run_truthyField?_of_none (hnone i), ok_bind, run_pure]
  · have hlist : Collects s (fun i => .ref (a i)) xs := fun i => .plain (hcell i) rfl
    cases xs with
    | nil =>
      refine ⟨.constant (.int 10), .constant rfl, fun i visit _ => ?_⟩
      simp only [countEnd, run_bind, run_truthyField?_of_ok (hw i) (hlist.run_truthy i), ok_bind,
        List.length_nil, bne_self_eq_false, Bool.false_eq_true, if_false, run_pure]
    | cons x xs =>
      have hcx := hc x (List.mem_cons_self ..)
      refine ⟨ρ x, hρ _ _ hcx, fun i visit hvisit => ?_⟩
      have htrue : run (truthy (.ref (a i))) (s i) = .ok true := hlist.run_truthy i
      simp only [countEnd, run_bind, run_truthyField?_of_ok (hw i) htrue, ok_bind, if_true,
        run_item_zero (hcell i), hcx.run_visit hvisit]

theorem countStmt_gives (hv : HasForm s v .forCountLoopStmt)
    (hvar : Asks s P v (.inside .initializer (.text .name)))
    (hfirst : Asks s P v (.inside .initializer (.child .value .expression)))
    (hcond : Asks s P v (.inside .condition (.mayItems .comparators .expression)))
    (hupdate : Asks s P v (.child .update .expression)) (hbody : Asks s P v (.block .body)) :
    Gives s P ρ .statement v := by
  obtain ⟨y, hy, id, hid⟩ := hvar
  obtain ⟨y', hy', x, hx, hc⟩ := hfirst
  obtain rfl := hy.unique hy'
  obtain ⟨c, hcond, hitems⟩ := hcond
  obtain ⟨finish, htf, hf⟩ := gives_countEnd hρ hitems
  obtain ⟨u, hu, -⟩ := hupdate
  obtain ⟨body, hne, htb, hrun⟩ := gives_fieldBlock hρ hbody
  have hbounds : ∀ t ∈ [ρ x, finish], Grammatical .expression t := by
    simp only [List.forall_mem_cons]
    exact ⟨hρ _ _ hc, htf, List.forall_mem_nil _⟩
  refine gives_of_requiring (t := .forLoop (Term.store (.text id))
      (Term.callOf "range" [ρ x, finish]) body false) hv rfl ?_ rfl
    (.forLoop .name (.callOf "range" hbounds) hne htb) fun i visit hvisit => ?_
  · simp [hy, hcond, hu]
  · simp only [run_bind, hy, ok_bind, run_fieldDoc, hid, run_doc_text, run_field?_of_ok (hx i),
      hc.run_visit hvisit, hcond, hf i visit hvisit, hrun i visit hvisit, run_pure]

/-! ## Faults -/

omit hρ in
/-- Whatever an exception becomes, what is raised is an expression. -/
theorem grammatical_raised (h : Grammatical .expression t) :
    Grammatical .expression (raised t) := by
  have hunknown : Grammatical .expression unknownException := by
    refine .callOf "Exception" fun t ht => ?_
    obtain rfl := List.mem_singleton.mp ht
    exact .textConstant _
  cases h with
  | call hf ha => exact .call hf ha
  | name => exact .call .name (List.forall_mem_nil _)
  | _ => exact hunknown

theorem throwStmt_gives (hv : HasForm s v .throwStmt)
    (h : Asks s P v (.mayChild .exception .expression))
    (hcall : Asks s P v (.mayInside .exception .mayCall)) : Gives s P ρ .statement v := by
  have hnothing : ∀ i, run (truthy .none) (s i) = .ok false := fun _ => rfl
  rcases h with hnone | ⟨x, hx, hc⟩
  · refine gives_of_rule (t := .raise .absent) hv rfl rfl (.raise .absent) fun i visit _ => ?_
    simp only [throwStmt, run_bind, run_truthyField?_of_ok (hnone i) (hnothing i), ok_bind,
      Bool.false_eq_true, if_false, run_pure]
  · have htrue := hc.run_truthy (by decide)
    have hcall : ∀ i, run (field? (x i) .fn) (s i) = .ok none ∨
        ∃ id, run (field (x i) .fn) (s i) = .ok (.text id) := by
      intro i
      rcases hcall with hnone | ⟨x', hx', hcall⟩
      · -- Nothing counts as true there, and the child does.
        have htrue := htrue i
        rw [hx.unique hnone, hnothing i] at htrue
        cases htrue
      · obtain rfl := hx.unique hx'
        rcases hcall with hmissing | ⟨id, hid⟩
        · exact .inl (hmissing i)
        · exact .inr ⟨id, hid i⟩
    have hterm : ∀ i visit, Agrees s P ρ i visit →
        run (exceptionTerm visit (x i)) (s i) = .ok (raised (ρ x)) := by
      intro i visit hvisit
      rcases hcall i with hmissing | ⟨id, hid⟩
      · simp only [exceptionTerm, run_bind, hmissing, ok_bind, hc.run_visit hvisit, run_pure]
      · simp only [exceptionTerm, run_bind, run_field?_of_ok hid, ok_bind, run_calledName?_text,
          hc.run_visit hvisit, run_pure]
    refine gives_of_rule (t := .raise (raised (ρ x))) hv rfl rfl
      (.raise (.present (grammatical_raised (hρ _ _ hc)))) fun i visit hvisit => ?_
    simp only [throwStmt, run_bind, run_truthyField?_of_ok (hx i) (htrue i), ok_bind, if_true,
      run_rescue, hterm i visit hvisit, run_pure]

omit hρ in
/-- The name under which a handler knows the exception is a text, if there is one. -/
theorem exists_handlerName (hform : Asks s P v (.mayInside .name (.form .identifier)))
    (hname : Asks s P v (.mayInside .name (.text .name))) :
    ∃ d, Doc.isName d = true ∧ ∀ i, run (handlerName (v i)) (s i) = .ok d := by
  have hmissing : Holding s v .name (fun _ => .none) →
      ∃ d, Doc.isName d = true ∧ ∀ i, run (handlerName (v i)) (s i) = .ok d := by
    refine fun hnone => ⟨.null, rfl, fun i => ?_⟩
    have hfalse : run (truthy .none) (s i) = .ok false := rfl
    simp only [handlerName, run_bind, run_truthyField?_of_ok (hnone i) hfalse, ok_bind,
      Bool.false_eq_true, if_false, run_pure]
  rcases hform with hnone | ⟨w, hw, hwform⟩
  · exact hmissing hnone
  · rcases hname with hnone | ⟨w', hw', id, hid⟩
    · exact hmissing hnone
    · obtain rfl := hw.unique hw'
      refine ⟨.text id, rfl, fun i => ?_⟩
      simp only [handlerName, run_bind,
        run_truthyField?_of_ok (hw i) (run_truthy_of_form (hwform i) rfl), ok_bind, if_true,
        run_field?_of_ok (hid i), run_doc_text]

theorem handler_gives (hv : HasForm s v .catchHandlerStmt)
    (hform : Asks s P v (.mayInside .name (.form .identifier)))
    (hname : Asks s P v (.mayInside .name (.text .name)))
    (htypes : Asks s P v (.mayChildren .types .expression)) (hbody : Asks s P v (.block .body)) :
    Gives s P ρ .handler v := by
  obtain ⟨name, htn, hn⟩ := exists_handlerName hform hname
  obtain ⟨body, hne, htb, hrun⟩ := gives_fieldBlock hρ hbody
  rcases htypes with hnone | ⟨w, l, x, xs, hw, hxs, hc⟩
  · refine gives_of_rule (m := ⟨.oneOf ["ExceptHandler"], handler⟩) hv rfl rfl
      (.handler .absent htn hne htb) fun i visit hvisit => ?_
    have hfalse : run (truthy .none) (s i) = .ok false := rfl
    simp only [handler, run_bind, run_truthyField?_of_ok (hnone i) hfalse, ok_bind,
      Bool.false_eq_true, if_false, hn, hrun i visit hvisit, run_pure]
  · have hcx := hc x (List.mem_cons_self ..)
    refine gives_of_rule (m := ⟨.oneOf ["ExceptHandler"], handler⟩) hv rfl rfl
      (.handler (.present (hρ _ _ hcx)) htn hne htb) fun i visit hvisit => ?_
    have htrue : run (truthy (w i)) (s i) = .ok true := (Contains.container (hxs i)).run_truthy
    simp only [handler, run_bind, run_truthyField?_of_ok (hw i) htrue, ok_bind, if_true,
      (hxs i).run_item_zero, hcx.run_visit hvisit, hn, hrun i visit hvisit, run_pure]

/-- Handlers, if there are any, then the block that is always run, if there is one. -/
theorem tryStmt_gives (hv : HasForm s v .exceptionHandlerStmt) (hbody : Asks s P v (.block .body))
    (hhandlers : Asks s P v (.children .handlers .handler))
    (hform : Asks s P v (.mayInside .finallyHandler (.form .finallyHandlerStmt)))
    (hfinal : Asks s P v (.mayInside .finallyHandler (.block .body))) :
    Gives s P ρ .statement v := by
  obtain ⟨b, hb, hblock⟩ := hbody
  obtain ⟨body, hne, htb, hrun⟩ := gives_block hρ hblock
  obtain ⟨w, xs, hw, hxs, hc⟩ := hhandlers
  have hfields : ∀ i, ∀ f ∈ [Field.body], ∃ w, run (field (v i) f) (s i) = .ok w := by simp [hb]
  obtain ⟨finalBody, htf, hf⟩ : ∃ finalBody, (∀ t ∈ finalBody, Grammatical .statement t) ∧
      ∀ i visit, Agrees s P ρ i visit → ∀ handlers,
        run (tryEnd visit (v i) body handlers) (s i)
          = .ok (Term.tryStmt body handlers finalBody) := by
    have hmissing := fun (hnone : Holding s v .finallyHandler fun _ => .none) i =>
      run_truthyField?_of_ok (hnone i) (show run (truthy .none) (s i) = .ok false from rfl)
    rcases hform with hnone | ⟨y, hy, hyform⟩
    · refine ⟨[], List.forall_mem_nil _, fun i visit _ handlers => ?_⟩
      simp only [tryEnd, run_bind, hmissing hnone, ok_bind, Bool.false_eq_true, if_false, run_pure]
    · rcases hfinal with hnone | ⟨y', hy', c, hc', hblock'⟩
      · refine ⟨[], List.forall_mem_nil _, fun i visit _ handlers => ?_⟩
        simp only [tryEnd, run_bind, hmissing hnone, ok_bind, Bool.false_eq_true, if_false,
          run_pure]
      · obtain rfl := hy.unique hy'
        obtain ⟨finalBody, -, htf, hrun'⟩ := gives_block hρ hblock'
        refine ⟨finalBody, htf, fun i visit hvisit handlers => ?_⟩
        simp only [tryEnd, run_bind,
          run_truthyField?_of_ok (hy i) (run_truthy_of_form (hyform i) rfl), ok_bind, if_true, hc',
          hrun' i visit hvisit, run_pure]
  refine gives_of_requiring (t := .tryStmt body (xs.map ρ) finalBody) hv rfl hfields rfl
    (.tryStmt hne htb (hρ.map hc) htf) fun i visit hvisit => ?_
  simp only [run_bind, hb, ok_bind, hrun i visit hvisit,
    run_truthyField?_of_ok (hw i) (hxs.run_truthy i)]
  cases xs with
  | nil => exact hf i visit hvisit []
  | cons x xs =>
    have hwalk := run_visitEach hxs hc hvisit
    simp only [List.length_cons, Nat.add_one_ne_zero, bne_iff_ne, ne_eq, not_false_eq_true,
      if_true, run_bind, hwalk, ok_bind]
    have htail := hf i visit hvisit ((x :: xs).map ρ)
    rw [tryEnd, run_bind] at htail
    exact htail

end ProgramTree.Target
