/-
Bodies of converted terms.

The target language has no empty bodies. Nodes may have empty blocks, and a conversion leaves out
those nodes of a block that it fails on, so bodies are filled up: `bodies_filled` says that none is
empty in any term that a conversion gives, and that what is always run is there whenever the node
has it.
-/
import ProgramTree.Proofs.Terms.Sorts

namespace ProgramTree.Target

open Look ProgramTree.Target.Convert

section Bodies

variable {s : Store} {visit : Visit} {v w : Value} {p : Place} {c t u : Term} {depth : Nat}

theorem Place.ne_nil_of_keeps {body : List Term} (h : p.keeps u = true)
    (hb : u.body? = some body) : body ≠ [] := by
  cases u with
  | name | tuple | list | starred | assign => cases hb
  | tryStmt b handlers final =>
    obtain rfl := Option.some.inj hb
    have hne : b.isEmpty = false := by simpa using ((Bool.and_eq_true _ _).mp h).2
    exact List.isEmpty_eq_false_iff.mp hne
  | forLoop | functionDef | asyncFunctionDef =>
    obtain rfl := Option.some.inj hb
    simpa using ((Bool.and_eq_true _ _).mp h).1
  | _ =>
    have hall : (Option.all (fun body => !body.isEmpty) (some body)) = true := hb ▸ h
    simpa using hall

/-- No body in a shaped term is empty. -/
theorem Shaped.ne_nil_of_body? {body : List Term} (h : Shaped s p u)
    (hb : u.body? = some body) : body ≠ [] := by
  induction h with
  | made _ hk _ => exact Place.ne_nil_of_keeps hk hb
  | converted _ _ ht _ _ ih => exact ih (ht.same.2 ▸ hb)

/-! ## What is always run -/

/-- A node says what is always run after a guarded block. -/
def HasFinal (s : Store) (w : Value) : Prop :=
  s.formOf? w = some .finallyHandlerStmt ∨ s.formOf? w = some .exceptionHandlerStmt ∧
    ∃ f, run (field w .finallyHandler) s = .ok f ∧ f ≠ .none

/-- Only two forms are converted to guarded blocks. -/
theorem form_of_try (form : Form) : "Try" ∈ classes form →
    form = .exceptionHandlerStmt ∨ form = .finallyHandlerStmt := by
  cases form <;> decide

/-- Each guarded block in a conversion is itself the conversion of a node of one of those forms. -/
theorem exists_of_try {body handlers final : List Term} (hs : Built s)
    (ht : run (toDepth depth v) s = .ok t) (hu : t.Has p (.tryStmt body handlers final)) :
    ∃ depth w, run (toDepth depth w) s = .ok (.tryStmt body handlers final) ∧
      (s.formOf? w = some .exceptionHandlerStmt ∨ s.formOf? w = some .finallyHandlerStmt) := by
  have hshaped : ∀ {q c}, t.Has q c → Shaped s q c := (shaped_of_toDepth hs _ _ t ht).has
  obtain ⟨depth, w, hrun⟩ : ∃ depth w,
      run (toDepth depth w) s = .ok (.tryStmt body handlers final) := by
    have hstand := hshaped hu
    cases hu with
    | whole => exact ⟨_, _, ht⟩
    | part _ hc =>
      cases hstand with
      | made _ hk _ =>
        have hloose : p = .loose := by simpa using ((Bool.and_eq_true _ _).mp hk).1
        exact absurd hloose (Term.ne_loose_of_mem_parts hc)
      | converted hrun _ ht _ _ =>
        obtain rfl := ht.eq_of_className (by simp [Term.className])
        exact ⟨_, _, hrun⟩
  obtain ⟨depth, w, n, hrun, hn, hclass⟩ := exists_className_mem hs hrun
  refine ⟨depth, w, hrun, ?_⟩
  rcases form_of_try n.form hclass with hform | hform
  · exact .inl (by rw [Store.formOf?, hn, ← hform]; rfl)
  · exact .inr (by rw [Store.formOf?, hn, ← hform]; rfl)

/-- What is always run after a guarded block. -/
def Term.final? : Term → Option (List Term)
  | .tryStmt _ _ final => some final
  | _ => none

section Rules

variable (hvisit : ∀ w, Yields s (visit w) (Converted s))

include hvisit

theorem yields_final_finallyStmt (hb : ∃ b, run (field v .body) s = .ok b) :
    Yields s (finallyStmt visit v) fun t => t.final? ≠ some [] :=
  yields_required (by simpa using hb) (yields_after fun _ => (yields_block hvisit _).bind
    fun _ hf => yields_pure (by simpa [Term.final?] using hf.1))

theorem yields_final_tryStmt (hb : ∃ b, run (field v .body) s = .ok b) {f : Value}
    (hf : run (truthyField? v .finallyHandler) s = .ok (some f)) :
    Yields s (tryStmt visit v) fun t => t.final? ≠ some [] := by
  refine yields_required (by simpa using hb) (yields_after fun _ => yields_after fun body =>
    yields_after fun handlers => ?_)
  have hend : ∀ hs, Yields s (tryEnd visit v body hs) fun t => t.final? ≠ some [] := fun hs =>
    yields_known hf (yields_after fun _ => (yields_block hvisit _).bind fun _ hf =>
      yields_pure (by simpa [Term.final?] using hf.1))
  cases handlers with
  | some hs => exact yields_after hend
  | none => exact hend []

end Rules

/-- What a node says is always run is not lost. -/
theorem final_ne_nil {body handlers final : List Term} (hs : Built s) (hw : HasFinal s w)
    (h : run (toDepth depth w) s = .ok (.tryStmt body handlers final)) : final ≠ [] := by
  cases depth with
  | zero => cases h
  | succ depth =>
    have hvisit : ∀ w, Yields s (toDepth depth w) (Converted s) :=
      fun w u hu => ⟨depth, w, hu, shaped_of_toDepth hs depth w u hu⟩
    obtain ⟨n, m, hn, hm, hrule, -⟩ := step_eq_ok h
    have hbody : holds n.form .body = true → ∃ b, run (field w .body) s = .ok b :=
      run_field_of_holds hs hn
    suffices hfinal : (Term.tryStmt body handlers final).final? ≠ some [] by
      simpa [Term.final?] using hfinal
    rcases hw with hform | ⟨hform, f, hf, hne⟩
    · have hform : n.form = .finallyHandlerStmt := by simpa [Store.formOf?, hn] using hform
      rw [hform] at hm hbody
      cases hm
      exact yields_final_finallyStmt hvisit (hbody (by decide)) _ hrule
    · have hform : n.form = .exceptionHandlerStmt := by simpa [Store.formOf?, hn] using hform
      have hmeets : (Hint.either .absent (.node .finallyHandlerStmt)).meets s f = true :=
        hs.meets_of_field hn (by rw [hform]; decide) (by rw [hform]; rfl) hf
      have htrue : run (truthyField? w .finallyHandler) s = .ok (some f) := by
        obtain ⟨g, hg, hisA⟩ : ∃ g, s.formOf? f = some g ∧ g.isA .finallyHandlerStmt = true := by
          simpa [Hint.meets, hne, Store.isForm, Option.any_eq_true] using hmeets
        refine run_truthyField?_of_ok hf (run_truthy_of_form hg ?_)
        cases g <;> first | rfl | cases hisA
      rw [hform] at hm hbody
      cases hm
      exact yields_final_tryStmt hvisit (hbody (by decide)) htrue _ hrule

/-- **Bodies.** No body in a converted term is empty. Each guarded block in it is the conversion
of a node, and if that node says what is always run, this is there. -/
theorem bodies_filled (hs : Built s) (ht : run (term v) s = .ok t) :
    (∀ p u body, t.Has p u → u.body? = some body → body ≠ []) ∧
    ∀ p body handlers final, t.Has p (.tryStmt body handlers final) →
      (∃ depth w, run (toDepth depth w) s = .ok (.tryStmt body handlers final) ∧
        (s.formOf? w = some .exceptionHandlerStmt ∨ s.formOf? w = some .finallyHandlerStmt)) ∧
      ∀ depth w, run (toDepth depth w) s = .ok (.tryStmt body handlers final) →
        HasFinal s w → final ≠ [] := by
  rw [run_term] at ht
  refine ⟨fun p u body hu hb => ?_, fun p body handlers final hu => ⟨exists_of_try hs ht hu, ?_⟩⟩
  · exact ((shaped_of_toDepth hs _ _ t ht).has hu).ne_nil_of_body? hb
  · exact fun depth w hrun hw => final_ne_nil hs hw hrun

end Bodies

/-- What is made for a branch with a guarded block in it. Its own body and what is always run are
one empty block. -/
def guardedBranch : List Making :=
  [.node .block [] [], .node .finallyHandlerStmt [] [(.body, .ref 21)], .cell (.list []),
   .node .exceptionHandlerStmt [] [(.body, .ref 21), (.handlers, .ref 24),
     (.finallyHandler, .ref 23)],
   .node .block [] [], .child (.ref 28) (.ref 25), .node .variableUse [] [(.name, .text "x")],
   .node .ifStmt [] [(.condition, .ref 30), (.thenBranch, .ref 28)]]

theorem guardedBranch_term : (Store.made? guardedBranch).any (fun s =>
    s.formOf? (.ref 25) = some .exceptionHandlerStmt &&
    (run (field (.ref 25) .finallyHandler) s).toOption = some (.ref 23) &&
    match run (term (.ref 34)) s with
    | .ok (.ifStmt (.name (.text "x") .load) [.tryStmt [.pass] [] [.pass]] []) => true
    | _ => false) = true := by
  decide +kernel

/-- Both bodies of the guarded block are filled up. -/
theorem guardedBranch_filled : ∃ s t, Store.made? guardedBranch = some s ∧
    run (term (.ref 34)) s = .ok t ∧ HasFinal s (.ref 25) ∧
    t.Has .statement (.tryStmt [.pass] [] [.pass]) ∧
    (∀ p u body, t.Has p u → u.body? = some body → body ≠ []) ∧
    ∃ depth w, run (toDepth depth w) s = .ok (.tryStmt [.pass] [] [.pass]) ∧
      (s.formOf? w = some .exceptionHandlerStmt ∨ s.formOf? w = some .finallyHandlerStmt) := by
  obtain ⟨s, hs, htest⟩ := (Option.any_eq_true _ _).mp guardedBranch_term
  simp only [Bool.and_eq_true, decide_eq_true_eq] at htest
  obtain ⟨⟨hform, hfield⟩, hterm⟩ := htest
  have hfinal : HasFinal s (.ref 25) := by
    refine .inr ⟨hform, .ref 23, ?_, by simp⟩
    cases hrun : run (field (.ref 25) .finallyHandler) s with
    | error e => simp [hrun, Except.toOption] at hfield
    | ok f => simpa [hrun, Except.toOption] using hfield
  split at hterm
  · next heq =>
    obtain ⟨hbodies, htry⟩ := bodies_filled (built_of_made hs) heq
    have hguarded : Term.Has (.ifStmt (.name (.text "x") .load) [.tryStmt [.pass] [] [.pass]] [])
        .statement (.tryStmt [.pass] [] [.pass]) := .part .whole (by simp [Term.parts])
    exact ⟨s, _, hs, heq, hfinal, hguarded, hbodies, (htry _ _ _ _ hguarded).1⟩
  · cases hterm

end ProgramTree.Target
