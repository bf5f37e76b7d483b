/-
Literals of collections cannot be shown.

A literal of a list, a tuple, a set or a dictionary is made without a value, which every rule
that shows a literal reads. So whatever its elements are, it has no text and no outline, and
neither JSON nor a digest, which are made of the outline.
-/
import ProgramTree.Proofs.Outlines.Simplified
import ProgramTree.View

namespace ProgramTree

open Look

/-- Literals of collections are labelled and outlined as other literals are, without a value. -/
theorem rules_of_collection : ∀ g ∈ Build.collections, Outline.lacksField g .value = true ∧
    g.ancestors.findSome? Label.own? = some Label.literal ∧
      Outline.outliner? g = some .literal := by
  simp only [Build.collections, List.forall_mem_cons]
  exact ⟨⟨by decide, rfl, by decide⟩, ⟨by decide, rfl, by decide⟩, ⟨by decide, rfl, by decide⟩,
    ⟨by decide, rfl, by decide⟩, List.forall_mem_nil _⟩

/-- A literal of a collection has no text, for want of a value, no outline, in full or simplified,
no JSON and no digest. -/
theorem collection_not_shown {s : Store} {v : Value} {g : Form} (hs : Built s)
    (hg : s.formOf? v = some g) (hcol : g ∈ Build.collections) :
    run (text v) s = .error (.noField g.name "value") ∧
      (∀ b x, run (outline b v) s ≠ .ok x) ∧ (∀ b r, run ((View.json b).report v) s ≠ .ok r) ∧
      ∀ r, run (digest v) s ≠ .ok r := by
  obtain ⟨n, hn, rfl⟩ := Option.map_eq_some_iff.mp hg
  obtain ⟨a, rfl, hnode⟩ := Built.exists_node hn
  obtain ⟨hlacks, hlabel, hrule⟩ := rules_of_collection _ hcol
  have houtline : ∀ b x, run (outline b (.ref a)) s ≠ .ok x := fun b x hx => by
    rw [outline, Describe.deep, run_bind, run_store, ok_bind, Describe.toDepth_succ] at hx
    simp only [Describe.step, Describe.outlineStep, run_bind, run_node?, hn, ok_bind,
      Outline.ofNode, Outline.findSome?_own?, hrule, Option.bind_some] at hx
    exact Outline.not_run_literal (Outline.not_run_lacksField hs hn hlacks) x hx
  have hnone : ∀ {α : Type} {b : Bool} {k : Doc → Look α} (r : α),
      run (outline b (.ref a) >>= k) s ≠ .ok r := fun r hr => by
    rw [run_bind] at hr
    obtain ⟨x, hx, -⟩ := bind_eq_ok.mp hr
    exact houtline _ x hx
  refine ⟨?_, houtline, fun b => hnone, hnone⟩
  rw [text, Describe.deep, run_bind, run_store, ok_bind, Describe.toDepth_succ]
  simp only [Describe.step, Describe.enter, Describe.textStep, run_bind, ok_bind, Label.ofNode,
    run_cell (Store.node?_eq_some.mp hnode), hlabel]
  simp [Label.literal, Label.formName, Describe.fieldText, hn, Outline.run_lacksField hs hn hlacks,
    Field.key]

/-- What is made for the literal of a list of one number. -/
def listLiteral : List Making :=
  [.node .literalInt32 [] [(.value, .int 1)], .cell (.list [.ref 21]),
   .node .literalList [] [(.elements, .ref 25)]]

theorem listLiteral_not_shown : ∃ s, Store.made? listLiteral = some s ∧
    run (text (.ref 26)) s = .error (.noField "LiteralList" "value") ∧
      (∀ b x, run (outline b (.ref 26)) s ≠ .ok x) ∧
      (∀ b r, run ((View.json b).report (.ref 26)) s ≠ .ok r) ∧
      ∀ r, run (digest (.ref 26)) s ≠ .ok r := by
  obtain ⟨s, hs, hform⟩ := (Option.any_eq_true _ _).mp (show (Store.made? listLiteral).any
    (fun s => decide (s.formOf? (.ref 26) = some .literalList)) = true by decide +kernel)
  exact ⟨s, hs, collection_not_shown (built_of_made hs) (of_decide_eq_true hform) (by decide)⟩

end ProgramTree
