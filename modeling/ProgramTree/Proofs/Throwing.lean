/-
What a throw statement becomes.

A throw statement is converted with a net under its exception: whatever the exception is, and
wherever its conversion fails, there is a statement that raises something. `thrown` says what is
raised for each outcome of the exception's own conversion. The rule looks into an exception that
is a call before it converts it; in a built store it never finds a called function there but a
name at most, so that it always comes to the conversion (`run_exceptionTerm`).
-/
import ProgramTree.Proofs.Built

namespace ProgramTree.Target.Convert

open Look

variable {s : Store} {v w : Value} {depth : Nat}

/-- What is raised, by the outcome of the conversion of the exception: a call as it is, a name
called without arguments, and a general exception for anything else and for no outcome. -/
def thrown : Except Fault Term → Term
  | .ok (.call f args keywords) => .call f args keywords
  | .ok (.name id c) => .call (.name id c) [] []
  | _ => .call (Term.load "Exception") [Term.textConstant "Unknown exception"] []

theorem thrown_is_call (x : Except Fault Term) : ∃ f args keywords,
    thrown x = .call f args keywords := by
  unfold thrown
  split <;> exact ⟨_, _, _, rfl⟩

/-- An expression is no container. -/
theorem not_nodeList_of_expr {g : Form} (hg : g.isA .expr = true) : g.isA .nodeList = false := by
  revert hg
  cases g <;> decide

/-- What a node calls is given by its name, if the node calls anything. -/
theorem run_field?_fn {n : Node} (hs : Built s) (hn : s.nodeOf? w = some n) :
    run (field? w .fn) s = .ok none ∨
      ∃ name, run (field? w .fn) s = .ok (some (.text name)) := by
  have hforms : ∀ g : Form, g.computed? .fn = none ∧ g.lent? .fn = none ∧ .fn ∈ g.telling ∧
      ((.fn, .text) ∈ g.kept ∨ .fn ∉ g.kept.map Prod.fst) := by
    intro g
    cases g <;> decide
  obtain ⟨hc, hlent, htelling, hkept | hkept⟩ := hforms n.form
  · obtain ⟨name, hname⟩ := hs.exists_text (congrArg (Option.map Node.form) hn) hkept hc
    exact .inr ⟨name, run_field?_of_ok hname⟩
  · obtain ⟨a, rfl, hnode⟩ := Built.exists_node hn
    have hget := hs.sound.lacking a n .fn hnode htelling hkept
    exact .inl (run_field?_of_missing hn hc hget hlent nofun)

/-- The exception of a throw statement is converted, and then called if it is a name. -/
theorem run_exceptionTerm {n : Node} {visit : Visit} (hs : Built s) (hn : s.nodeOf? w = some n) :
    run (exceptionTerm visit w) s = (run (visit w) s).bind fun t => .ok (raised t) := by
  rcases run_field?_fn hs hn with hfn | ⟨name, hfn⟩
  · simp only [exceptionTerm, run_bind, hfn, ok_bind, run_pure]
  · have hnone : run (calledName? (.text name)) s = .ok none := rfl
    simp only [exceptionTerm, run_bind, hfn, ok_bind, hnone, run_pure]

theorem run_rescued_exceptionTerm {n : Node} {visit : Visit} (hs : Built s)
    (hn : s.nodeOf? w = some n) :
    run (rescue (exceptionTerm visit w) fun _ => return unknownException) s =
      .ok (thrown (run (visit w) s)) := by
  rw [run_rescue, run_exceptionTerm hs hn]
  cases run (visit w) s with
  | error e => rfl
  | ok t => cases t <;> rfl

/-- A throw statement is converted by its rule, and what the rule makes is as promised. -/
theorem run_toDepth_throw {x : Term} (hv : s.formOf? v = some .throwStmt)
    (h : run (throwStmt (toDepth depth) v) s = .ok (.raise x)) :
    run (toDepth (depth + 1) v) s = .ok (.raise x) := by
  obtain ⟨n, hn, hform⟩ := Option.map_eq_some_iff.mp hv
  exact run_step (m := ⟨.oneOf ["Raise"], throwStmt⟩) hn (by rw [hform]; rfl) h rfl

/-- **Throw statements.** Each throw statement becomes a statement that raises something, at any
depth of the conversion. Nothing is named exactly if the statement has no exception; otherwise it
is a call, the one that the outcome of the exception's own conversion asks for. In the body of a
block that holds it the statement stands as it is. -/
theorem throw_always_raises (hs : Built s) (hv : s.formOf? v = some .throwStmt) (depth : Nat) :
    ∃ e x, run (field v .exception) s = .ok e ∧
      run (toDepth (depth + 1) v) s = .ok (.raise x) ∧
      (x = .absent ↔ e = .none) ∧
      (e ≠ .none → s.isForm e .expr = true ∧ x = thrown (run (toDepth depth e) s) ∧
        ∃ f args keywords, x = .call f args keywords) ∧
      ∀ b l xs, IsContainer s b l xs → v ∈ xs →
        ∃ body, run (block (toDepth (depth + 1)) b) s = .ok body ∧ .raise x ∈ body := by
  have hbody : ∀ x, run (toDepth (depth + 1) v) s = .ok (.raise x) → ∀ b l xs,
      IsContainer s b l xs → v ∈ xs →
        ∃ body, run (block (toDepth (depth + 1)) b) s = .ok body ∧ .raise x ∈ body := by
    intro x hx b l xs hb hmem
    have hadded : .raise x ∈ added (toDepth (depth + 1)) s v := by
      rw [added, hx]
      exact List.mem_singleton_self _
    have hparts := List.mem_flatMap.mpr ⟨v, hmem, hadded⟩
    refine ⟨_, run_block hb, ?_⟩
    rw [bodyOf, if_neg (by simpa using List.ne_nil_of_mem hparts)]
    exact hparts
  obtain ⟨e, he, hmeets⟩ := hs.exists_field (f := .exception) (h := (Hint.node .expr).maybe) hv
    (by decide) rfl
  rcases Bool.or_eq_true _ _ ▸ hmeets with hnone | hexpr
  · obtain rfl : e = .none := of_decide_eq_true hnone
    have hrule : run (throwStmt (toDepth depth) v) s = .ok (.raise .absent) := by
      simp only [throwStmt, run_bind, run_truthyField?_of_ok he rfl, ok_bind]
      rfl
    have hraise := run_toDepth_throw hv hrule
    exact ⟨.none, .absent, he, hraise, iff_of_true rfl rfl, fun h => absurd rfl h, hbody _ hraise⟩
  · obtain ⟨g, hg, hisA⟩ := Store.isForm_iff.mp hexpr
    obtain ⟨n, hn, -⟩ := Option.map_eq_some_iff.mp hg
    have htrue : run (truthy e) s = .ok true := run_truthy_of_form hg (not_nodeList_of_expr hisA)
    have hrule : run (throwStmt (toDepth depth) v) s =
        .ok (.raise (thrown (run (toDepth depth e) s))) := by
      simp only [throwStmt, run_bind, run_truthyField?_of_ok he htrue, ok_bind, if_true,
        run_rescued_exceptionTerm hs hn, run_pure]
    have hraise := run_toDepth_throw hv hrule
    obtain ⟨f, args, keywords, hcall⟩ := thrown_is_call (run (toDepth depth e) s)
    have hne : e ≠ .none := by
      rintro rfl
      cases hg
    refine ⟨e, _, he, hraise, iff_of_false ?_ hne, fun _ => ⟨hexpr, rfl, f, args, keywords, hcall⟩,
      hbody _ hraise⟩
    rw [hcall]
    intro h
    cases h

/-! ## An exception that cannot be converted -/

/-- A block with a throw statement whose exception is the description of a machine. -/
def thrownTarget : List Making :=
  [.node .target [] [(.datalayout, .text ""), (.triple, .text "")],
   .node .throwStmt [] [(.exception, .ref 21)],
   .node .block [] [], .child (.ref 23) (.ref 22)]

/-- What the constructors left behind. -/
theorem thrownTarget_nodes : (Store.made? thrownTarget).any (fun s => decide (
    NodeWith s (.ref 22) .throwStmt [(.exception, .ref 21)] ∧ IsContainer s (.ref 23) 24 [.ref 22]) &&
    match run (toDepth s.cells.size (.ref 21)) s with
    | .error _ => true
    | .ok _ => false) = true := by
  decide +kernel

/-- The block raises a general exception. -/
theorem thrownTarget_raises : ∃ s e body, Store.made? thrownTarget = some s ∧
    s.formOf? (.ref 22) = some .throwStmt ∧
    run (toDepth s.cells.size (.ref 21)) s = .error e ∧
    run (block (toDepth (s.cells.size + 1)) (.ref 23)) s = .ok body ∧
    .raise (.call (Term.load "Exception") [Term.textConstant "Unknown exception"] []) ∈ body := by
  obtain ⟨s, hs, htest⟩ := (Option.any_eq_true _ _).mp thrownTarget_nodes
  obtain ⟨hnodes, htest⟩ := Bool.and_eq_true_iff.mp htest
  obtain ⟨⟨hthrow, hexception⟩, hblock⟩ := of_decide_eq_true hnodes
  split at htest
  · next e herror =>
    obtain ⟨w, x, hw, -, -, hx, hbody⟩ := throw_always_raises (built_of_made hs) hthrow s.cells.size
    obtain rfl := Except.ok.inj (hexception.symm.trans hw)
    obtain ⟨body, hrun, hmem⟩ := hbody _ _ _ hblock (List.mem_singleton_self _)
    rw [(hx nofun).2.1, herror] at hmem
    exact ⟨s, e, body, hs, hthrow, herror, hrun, hmem⟩
  · cases htest

end ProgramTree.Target.Convert
