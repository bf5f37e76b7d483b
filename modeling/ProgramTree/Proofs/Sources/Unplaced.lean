/-
When the source text of a node is a comment that says what went wrong.

A tree of the core fragment is always converted, and what it is converted to is grammatical, so
the text is there unless a statement of the term is in the way of writing. Which statements are in
the way can be told from their classes: assignments, loops over items and asynchronous functions
never know their place in the source, while a function knows it unless it was converted from a
prototype that stands by itself (`stuck_iff`). The comment names the node that was asked for and
the first such statement (`core_source_text`).
-/
import ProgramTree.Proofs.Core.Soundness
import ProgramTree.Proofs.Sources.Written
import ProgramTree.Proofs.Terms.Sorts

namespace ProgramTree.Target

open Look ProgramTree.Target.Convert

/-! ## Statements in their places -/

namespace Term

variable {t u : Term} {p : Place}

/-- What a term has inside stands at a place in it. -/
theorem exists_has_of_mem_preorder {t₀ : Term} (ht : t₀.Has p t) (hu : u ∈ t.preorder) :
    ∃ q, t₀.Has q u := by
  induction t using preorder.induct generalizing p with
  | case1 t ih =>
    rw [preorder_eq, List.mem_cons, List.mem_flatMap] at hu
    rcases hu with rfl | ⟨e, he, hu⟩
    · exact ⟨p, ht⟩
    · exact ih ⟨e, he⟩ (.part ht he) hu

theorem Has.eq_of_loose (h : t.Has .loose u) : u = t := by
  cases h with
  | whole => rfl
  | part _ hc => exact absurd rfl (ne_loose_of_mem_parts hc)

end Term

namespace Grammatical

variable {r : Role} {t u : Term} {p : Place}

theorem isTrue_of_role (h : Grammatical r t) (hr : r ≠ .optional) : t.isTrue = true := by
  cases h with
  | absent | present => exact absurd rfl hr
  | _ => rfl

/-- Statements belong to the places of statements only. -/
theorem role_of_sort (h : Grammatical r t) (ht : t.sort = .statement) : r = .statement := by
  cases h with
  | present h =>
    rw [h.sort_expression] at ht
    cases ht
  | expr | assign | augAssign | annAssign | pass | breakLoop | continueLoop | giveBack | raise
  | delete | importing | importFrom | ifStmt | whileLoop | forLoop | tryStmt | functionDef
  | asyncFunctionDef | classDef => rfl
  | _ => cases ht

/-- Statements of a grammatical term stand at the places of statements. -/
theorem part (h : Grammatical r t) {e : Place × Term} (he : e ∈ t.parts) :
    ∃ r', Grammatical r' e.2 ∧ (r' = .statement → e.1 = .statement) := by
  induction h with
  | present h ih => exact ih he
  | dict hk hv =>
    obtain ⟨x, hx, he⟩ := List.mem_flatMap.mp he
    rcases List.mem_pair.mp he with rfl | rfl
    · exact ⟨_, hk x hx, by simp⟩
    · exact ⟨_, hv x hx, by simp⟩
  | _ =>
    simp only [Term.parts, List.mem_cons, List.mem_append, List.mem_map, List.not_mem_nil,
      or_false] at he <;> grind

theorem has (h : Grammatical r t) (hu : t.Has p u) :
    ∃ r', Grammatical r' u ∧ (r' = .statement → p = .statement ∨ p = .loose) := by
  induction hu with
  | whole => exact ⟨r, h, fun _ => .inr rfl⟩
  | part _ hc ih =>
    obtain ⟨_, hu, -⟩ := ih
    obtain ⟨r', hr', hplace⟩ := hu.part hc
    exact ⟨r', hr', fun hr => .inl (hplace hr)⟩

end Grammatical

/-! ## Which statements do not know their place -/

/-- A statement that never knows its place, or a function that was converted from a prototype. -/
def Stuck (s : Store) (u : Term) : Prop :=
  u.className ∈ ["Assign", "For", "AsyncFunctionDef"] ∨
    u.className = "FunctionDef" ∧ ∃ depth w, s.formOf? w = some .functionPrototype ∧
      run (toDepth depth w) s = .ok u

section Stuck

variable {s : Store} {visit : Visit} {v : Value} {t u : Term} {p : Place} {d : Nat}

/-- The nodes that functions are converted from. -/
theorem eq_of_functionDef_mem_classes {form : Form} (h : "FunctionDef" ∈ classes form) :
    form = .functionDef ∨ form = .functionPrototype := by
  revert h
  cases form <;> decide

/-- What passes a test of stand-ins and of what a rule gives passes it with required fields. -/
theorem yields_requiring_or {fields : List Field} {rule : Rule} {Q : Term → Prop}
    (hc : ∀ d, Q (.constant d)) (hl : ∀ d, Q (.name d .load)) (h : Yields s (rule visit v) Q) :
    Yields s (requiring fields rule visit v) Q := by
  refine yields_after fun has => ?_
  cases has with
  | true => exact h
  | false =>
    refine (yields_standIn v).mono ?_
    rintro t (⟨d, rfl⟩ | ⟨d, rfl⟩)
    · exact hc d
    · exact hl d

theorem yields_placed_functionDef : Yields s (functionDef visit v) fun t => t.unplaced = false :=
  yields_requiring_or (fun _ => rfl) (fun _ => rfl) (yields_after fun _ => yields_after fun _ =>
    yields_after fun _ => yields_after fun _ => yields_after fun _ => yields_after fun _ =>
    yields_after fun _ => yields_pure rfl)

theorem yields_unplaced_prototype : Yields s (prototype visit v) fun t =>
    t.className = "FunctionDef" → t.unplaced = true := by
  refine yields_requiring_or (by simp [Term.className]) (by simp [Term.className])
    (yields_after fun args => ?_)
  cases args with
  | some args =>
    exact yields_after fun _ => yields_after fun _ => yields_after fun _ => yields_after fun _ =>
      yields_pure fun _ => rfl
  | none =>
    exact yields_after fun _ => yields_after fun _ => yields_after fun _ => yields_after fun _ =>
      yields_pure fun _ => rfl

/-- A function that was converted from a prototype does not know its place. -/
theorem unplaced_of_prototype (hclass : u.className = "FunctionDef")
    (hform : s.formOf? v = some .functionPrototype) (h : run (toDepth d v) s = .ok u) :
    u.unplaced = true := by
  cases d with
  | zero => cases h
  | succ d =>
    obtain ⟨n, m, hn, hm, hrule, -⟩ := step_eq_ok h
    rw [Store.formOf?, hn, Option.map_some, Option.some.injEq] at hform
    rw [hform] at hm
    obtain rfl := Option.some.inj hm
    exact yields_unplaced_prototype u hrule hclass

/-- All other functions know it. -/
theorem prototype_of_unplaced (hs : Built s) (hclass : u.className = "FunctionDef")
    (hu : u.unplaced = true) (h : run (toDepth d v) s = .ok u) :
    ∃ depth w, s.formOf? w = some .functionPrototype ∧ run (toDepth depth w) s = .ok u := by
  obtain ⟨depth, w, n, hrun, hn, hmem⟩ := exists_className_mem hs h
  rw [hclass] at hmem
  rcases eq_of_functionDef_mem_classes hmem with hform | hform
  · cases depth with
    | zero => cases hrun
    | succ depth =>
      obtain ⟨n', m, hn', hm, hrule, -⟩ := step_eq_ok hrun
      obtain rfl := Option.some.inj (hn.symm.trans hn')
      rw [hform] at hm
      obtain rfl := Option.some.inj hm
      rw [yields_placed_functionDef u hrule] at hu
      cases hu
  · exact ⟨depth, w, by rw [Store.formOf?, hn, Option.map_some, hform], hrun⟩

/-- Where nothing is told its place, what is there was made so, if by another rule. -/
theorem Shaped.exists_keeps (h : Shaped s p u) (hp : p.settles = false) :
    ∃ q : Place, q.settles = false ∧ q.keeps u = true := by
  induction h with
  | made _ hk _ => exact ⟨_, hp, hk⟩
  | converted _ _ _ hq _ ih =>
    rcases hq with rfl | hq
    · exact ih rfl
    · rw [hp] at hq
      cases hq

/-- **Statements in the way.** A statement of a conversion does not know its place exactly if its
class never does, or it is a function that was converted from a prototype. -/
theorem stuck_iff (hs : Built s) {r : Role} (ht : run (toDepth d v) s = .ok t)
    (hg : Grammatical r t) (hu : t.Has p u) : u.unplaced = true ↔ Stuck s u := by
  have hshaped : Shaped s p u := (shaped_of_toDepth hs _ _ t ht).has hu
  have hplace : u.sort = .statement → p = .statement ∨ p = .loose := by
    intro hsort
    obtain ⟨r', hgu, hr⟩ := hg.has hu
    exact hr (hgu.role_of_sort hsort)
  have hsettles : u.sort = .statement → p.settles = false := by
    intro hsort
    rcases hplace hsort with rfl | rfl <;> rfl
  cases u with
  | assign targets value placed =>
    obtain ⟨q, hq, hk⟩ := hshaped.exists_keeps (hsettles rfl)
    simpa [Place.keeps, hq, Term.unplaced, Stuck, Term.className] using hk
  | forLoop target iterable body placed =>
    obtain ⟨q, hq, hk⟩ := hshaped.exists_keeps (hsettles rfl)
    simp_all [Place.keeps, Term.unplaced, Stuck, Term.className]
  | asyncFunctionDef title args body returns placed =>
    obtain ⟨q, hq, hk⟩ := hshaped.exists_keeps (hsettles rfl)
    simp_all [Place.keeps, Term.unplaced, Stuck, Term.className]
  | functionDef title args body returns placed =>
    constructor
    · intro hunplaced
      -- Such a function is never made inside another term, so it is a conversion.
      have hconverted : ∃ depth w, run (toDepth depth w) s = .ok
          (.functionDef title args body returns placed) := by
        cases hshaped with
        | made _ hk _ =>
          have hloose : p = .loose := by
            have hp := hsettles rfl
            simp_all [Place.keeps, Term.unplaced]
          subst hloose
          exact ⟨d, v, hu.eq_of_loose ▸ ht⟩
        | converted hrun _ _ hq _ =>
          rcases hq with rfl | hq
          · exact ⟨_, _, hrun⟩
          · rw [hsettles rfl] at hq
            cases hq
      obtain ⟨depth, w, hrun⟩ := hconverted
      exact .inr ⟨rfl, prototype_of_unplaced hs rfl hunplaced hrun⟩
    · rintro (hclass | ⟨-, depth, w, hform, hrun⟩)
      · simp [Term.className] at hclass
      · exact unplaced_of_prototype rfl hform hrun
  | _ => simp [Term.unplaced, Stuck, Term.className]

/-! ## The text of a tree -/

/-- No tree of the fragment is something that may be missing. -/
theorem role_ne_optional {form : Form} {r : Role} (h : (schema form).map Prod.fst = some r) :
    r ≠ .optional := by
  rintro rfl
  revert h
  cases form <;> decide

/-- The name of a node is that of its form. -/
theorem run_typeName {form : Form} (h : s.formOf? v = some form) :
    run (typeName v) s = .ok form.name := by
  obtain ⟨n, hn, rfl⟩ := Option.map_eq_some_iff.mp h
  obtain ⟨a, rfl, hnode⟩ := Built.exists_node hn
  simp only [typeName, run_bind, run_cell (Store.node?_eq_some.mp hnode), ok_bind]
  rfl

theorem run_source_of_ok {code : String} (margin : Margin) (ht : run (term v) s = .ok t)
    (hcode : t.source = .ok code) : run (source margin v) s =
      .ok (margin.indented (String.ofList (Returned.parenthesized 0 code.toList))) := by
  rw [Look.source, run_rescue]
  simp only [run_bind, ht, ok_bind, run_ofOutcome, hcode, run_pure]

theorem run_source_of_error {form : Form} {className : String} (margin : Margin)
    (hform : s.formOf? v = some form) (ht : run (term v) s = .ok t)
    (herror : t.source = .error (.noField className "lineno")) : run (source margin v) s =
      .ok ("# Error converting " ++ form.name ++ ": '" ++ className ++
        "' object has no attribute 'lineno'") := by
  rw [Look.source, run_rescue]
  simp only [run_bind, ht, ok_bind, run_ofOutcome, herror, error_bind, run_typeName hform,
    run_pure, Fault.message, Fault.named, Option.getD_some]
  have hcolon : (": '" : String) = ": " ++ "'" := rfl
  have hlast : ("' object has no attribute 'lineno'" : String) =
      "'" ++ (" object has no attribute " ++ ("'" ++ "lineno" ++ "'")) := rfl
  simp only [hcolon, hlast, String.append_assoc]

end Stuck

/-- A condition comes first, then what it tests, then the first statement behind it. -/
theorem exists_preorder_ifStmt (test t : Term) (rest orElse : List Term) :
    ∃ after, (Term.ifStmt test (t :: rest) orElse).preorder =
      .ifStmt test (t :: rest) orElse :: (test.preorder ++ t :: after) := by
  rw [Term.preorder_eq]
  simp only [Term.parts, List.flatMap_cons, List.map_cons, List.cons_append]
  rw [Term.preorder_eq t]
  exact ⟨_, rfl⟩

/-- What is made for a condition with a prototype and an assignment behind it. -/
def guardedPrototype : List Making :=
  [.node .variableUse [] [(.name, .text "x")], .node .literalInt32 [] [(.value, .int 1)],
   .node .variableAssignment [] [(.name, .text "x"), (.value, .ref 25)],
   .node .arguments [] [], .node .int32 [] [],
   .node .functionPrototype [] [(.name, .text "f"), (.args, .ref 30), (.returnType, .ref 32)],
   .node .block [] [], .child (.ref 35) (.ref 34), .child (.ref 35) (.ref 29),
   .node .ifStmt [] [(.condition, .ref 21), (.thenBranch, .ref 35)]]

/-- What the constructors left behind. -/
theorem guardedPrototype_nodes : (Store.made? guardedPrototype).any (fun s => decide (
    NodeWith s (.ref 21) .variableUse [(.name, .text "x")] ∧
    NodeWith s (.ref 25) .literalInt32 [(.value, .int 1)] ∧
    NodeWith s (.ref 29) .variableAssignment [(.name, .text "x"), (.value, .ref 25)] ∧
    (s.formOf? (.ref 34) = some .functionPrototype ∧
      run (field (.ref 34) .name) s = .ok (.text "f") ∧
      run (field (.ref 34) .args) s = .ok (.ref 30) ∧
      run (field (.ref 30) .nodes) s = .ok (.ref 31) ∧
      (s.cell? 31).bind sequence? = some [] ∧
      run (field (.ref 34) .returnType) s = .ok (.ref 32) ∧
      s.formOf? (.ref 32) = some .int32) ∧
    (s.formOf? (.ref 37) = some .ifStmt ∧
      run (field (.ref 37) .condition) s = .ok (.ref 21) ∧
      run (field (.ref 37) .thenBranch) s = .ok (.ref 35) ∧
      IsContainer s (.ref 35) 36 [.ref 34, .ref 29] ∧
      run (field (.ref 37) .elseBranch) s = .ok .none)) &&
    match run (term (.ref 37)) s, run (toDepth 2 (.ref 34)) s with
    | .ok (.ifStmt (.name (.text "x") .load)
        [.functionDef (.text "f") (.arguments []) [.pass] (.name (.text "int") .load) false,
         .assign [.name (.text "x") .store] (.constant (.int 1)) false] []),
      .ok (.functionDef (.text "f") (.arguments []) [.pass] (.name (.text "int") .load) false) =>
        true
    | _, _ => false) = true := by
  decide +kernel

end ProgramTree.Target
