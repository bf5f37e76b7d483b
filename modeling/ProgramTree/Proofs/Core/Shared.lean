/-
Trees of one shape.

Trees in several stores have the same shape if their nodes, taken side by side, have the same
forms and hold the same texts and scalars where the fragment asks for them (`SameShape`).
Conversions are followed on all sides at once, so that what becomes of one tree and what becomes of
several trees of one shape is one statement.
-/
import ProgramTree.Proofs.Core.Tree

open ProgramTree.Look

namespace ProgramTree.Target

section Sides

variable {ι : Type} (s : ι → Store) (P : (ι → Value) → Prop)

/-! ## Nodes side by side -/

abbrev HasForm (v : ι → Value) (g : Form) : Prop :=
  ∀ i, (s i).formOf? (v i) = some g

/-- The field of each node holds the value of its side. -/
abbrev Holding (v : ι → Value) (f : Field) (w : ι → Value) : Prop :=
  ∀ i, run (field (v i) f) (s i) = .ok (w i)

abbrev Collects (w : ι → Value) (xs : List (ι → Value)) : Prop :=
  ∀ i, Contains (s i) (w i) (xs.map (· i))

abbrev Containers (v : ι → Value) (l : ι → Address) (xs : List (ι → Value)) : Prop :=
  ∀ i, IsContainer (s i) (v i) (l i) (xs.map (· i))

/-- Nodes of the fragment, all of one form, whose terms take a place. -/
def Peers (r : Role) (v : ι → Value) : Prop :=
  P v ∧ ∃ g, HasForm s v g ∧ (schema g).map Prod.fst = some r

def PeerBlocks (b : ι → Value) : Prop :=
  ∃ l xs, Containers s b l xs ∧ ∀ x ∈ xs, Peers s P .statement x ∨ Peers s P .expression x

/-- Values of all sides meet a requirement in the same way. -/
def Requirement.Shared : Requirement → (ι → Value) → Prop
  | .form g, v => HasForm s v g
  | .missing f, v => ∀ i, run (field? (v i) f) (s i) = .ok none
  | .text f, v => ∃ id, Holding s v f fun _ => .text id
  | .boolean f, v => ∃ b, Holding s v f fun _ => .bool b
  | .integer f, v => ∃ n, Holding s v f fun _ => .int n
  | .scalar f, v => ∃ w, Holding s v f (fun _ => w) ∧ w.isScalar = true
  | .label f, v => Holding s v f (fun _ => .none) ∨ ∃ id, Holding s v f fun _ => .text id
  | .scalarPair f, v => ∃ (a : ι → Address) (x y : Value), Holding s v f (fun i => .ref (a i)) ∧
      (∀ i, (s i).cell? (a i) = some (.tuple [x, y])) ∧ x.isScalar = true ∧ y.isScalar = true
  | .unarySign f, v => ∃ code sign, Holding s v f (fun _ => .text code) ∧
      UnarySign.ofText? code = some sign
  | .child f r, v => ∃ w, Holding s v f w ∧ Peers s P r w
  | .mayChild f r, v => Holding s v f (fun _ => .none) ∨ ∃ w, Holding s v f w ∧ Peers s P r w
  | .children f r, v => ∃ w xs, Holding s v f w ∧ Collects s w xs ∧ ∀ x ∈ xs, Peers s P r x
  | .mayChildren f r, v => Holding s v f (fun _ => .none) ∨ ∃ w l x xs, Holding s v f w ∧
      Containers s w l (x :: xs) ∧ ∀ y ∈ x :: xs, Peers s P r y
  | .entries f, v => ∃ (a : ι → Address) (es : List ((ι → Value) × (ι → Value))),
      Holding s v f (fun i => .ref (a i)) ∧
      (∀ i, (s i).cell? (a i) = some (.dict (es.map fun e => (e.1 i, e.2 i)))) ∧
      ∀ e ∈ es, Peers s P .expression e.1 ∧ Peers s P .expression e.2
  | .block f, v => ∃ b, Holding s v f b ∧ PeerBlocks s P b
  | .mayBlock f, v => Holding s v f (fun _ => .none) ∨ ∃ b, Holding s v f b ∧ PeerBlocks s P b
  | .branch f, v => ∃ b l x, Holding s v f b ∧ Containers s b l [x] ∧ Peers s P .expression x
  | .mayBranch f, v => Holding s v f (fun _ => .none) ∨
      ∃ b l x, Holding s v f b ∧ Containers s b l [x] ∧ Peers s P .expression x
  | .named f, v => ∃ w xs, Holding s v f w ∧ Collects s w xs ∧
      ∀ x ∈ xs, ∃ id, Holding s x .name fun _ => .text id
  | .someNamed f, v => ∃ w xs, Holding s v f w ∧ Collects s w xs ∧ xs ≠ [] ∧
      ∀ x ∈ xs, ∃ id, Holding s x .name fun _ => .text id
  | .declared f, v => ∃ w xs, Holding s v f w ∧ Collects s w xs ∧
      ∀ x ∈ xs, HasForm s x .variableDeclaration ∧ ∃ id, Holding s x .name fun _ => .text id
  | .comparisons, v => ∃ o w xs, ∃ codes : List String, Holding s v .ops o ∧
      Collects s o (codes.map fun code _ => .text code) ∧ Holding s v .comparators w ∧
      Collects s w xs ∧ (∀ x ∈ xs, Peers s P .expression x) ∧ codes.length = xs.length
  | .mayCall, v => (∀ i, run (field? (v i) .fn) (s i) = .ok none) ∨
      ∃ id, Holding s v .fn fun _ => .text id
  | .mayItems f r, v => (∀ i, run (field? (v i) f) (s i) = .ok none) ∨
      ∃ (a : ι → Address) (xs : List (ι → Value)), Holding s v f (fun i => .ref (a i)) ∧
        (∀ i, (s i).cell? (a i) = some (.list (xs.map (· i)))) ∧ ∀ x ∈ xs, Peers s P r x
  | .inside f q, v => ∃ w, Holding s v f w ∧ q.Shared w
  | .mayInside f q, v => Holding s v f (fun _ => .none) ∨ ∃ w, Holding s v f w ∧ q.Shared w

abbrev Asks (v : ι → Value) (q : Requirement) : Prop :=
  q.Shared s P v

/-- Trees of the fragment that have the same shape, with at most so many levels. -/
def SameShape : Nat → (ι → Value) → Prop
  | 0, _ => False
  | depth + 1, v => ∃ g r reqs, HasForm s v g ∧ schema g = some (r, reqs) ∧
      ∀ q ∈ reqs, q.Shared s (SameShape depth) v

end Sides

section Walks

variable {ι β : Type} {s : ι → Store} {v w x : ι → Value} {f : Field} {xs : List (ι → Value)}

theorem Holding.unique (h : Holding s v f w) (h' : Holding s v f x) : w = x :=
  funext fun i => Except.ok.inj ((h i).symm.trans (h' i))

theorem Collects.run_forEach {body : Value → Look β} {g : (ι → Value) → β} (h : Collects s w xs)
    (i : ι) (hb : ∀ x ∈ xs, run (body (x i)) (s i) = .ok (g x)) :
    run (forEach (w i) body) (s i) = .ok (xs.map g) := by
  rw [(h i).run_forEach, List.mapM_map]
  exact mapM_eq_ok hb

theorem Collects.run_truthy (h : Collects s w xs) (i : ι) :
    run (truthy (w i)) (s i) = .ok (xs.length != 0) := by
  rw [(h i).run_truthy, List.length_map]

end Walks

end ProgramTree.Target
