/-
What is inside a value.

A node holds what its fields hold, its parent apart, and a collection holds its items. What is
found on the way along fields and items is inside the value where the way began (`Within`).
-/
import Mathlib.Logic.Relation
import ProgramTree.Proofs.Built

namespace ProgramTree

open Relation (TransGen)

/-- Whether a field holds what is inside a node: all but the parent and the cursor do. -/
def Field.isInner (f : Field) : Bool :=
  f ≠ .parent && f ≠ .position

/-- What a collection holds: items, or keys and values. -/
def Cell.items : Cell → List Value
  | .node _ => []
  | .list xs | .tuple xs | .set xs => xs
  | .dict es => es.flatMap fun e => [e.1, e.2]

namespace Store

/-- What a cell holds, not counting the parent and the cursor of a node. -/
inductive Holds (s : Store) : Value → Value → Prop
  | own {a : Address} {n : Node} {f : Field} {w : Value} : s.node? a = some n →
      f.isInner = true → n.get? f = some w → Holds s (.ref a) w
  | lent {a : Address} {n : Node} {f : Field} {w : Value} : s.node? a = some n →
      n.get? f = none → n.form.lent? f = some w → Holds s (.ref a) w
  | item {a : Address} {c : Cell} {w : Value} : s.cell? a = some c → w ∈ c.items →
      Holds s (.ref a) w

/-- A value that is found inside another one: it is no cell, or the other one holds it, at
once or through others. -/
def Within (s : Store) (v w : Value) : Prop :=
  (∀ a, w ≠ .ref a) ∨ TransGen s.Holds v w

variable {s : Store} {u v w : Value} {a : Address}

theorem Holds.exists_cell (h : s.Holds v w) : ∃ a c, v = .ref a ∧ s.cell? a = some c := by
  cases h with
  | own hn _ _ => exact ⟨_, _, rfl, node?_eq_some.mp hn⟩
  | lent hn _ _ => exact ⟨_, _, rfl, node?_eq_some.mp hn⟩
  | item hc _ => exact ⟨_, _, rfl, hc⟩

theorem exists_cell_of_transGen (h : TransGen s.Holds v w) :
    ∃ a c, v = .ref a ∧ s.cell? a = some c := by
  induction h with
  | single h => exact h.exists_cell
  | tail _ _ ih => exact ih

theorem Holds.within (h : s.Holds v w) : s.Within v w := .inr (.single h)

theorem Within.trans (h : s.Within v u) (h' : s.Within u w) : s.Within v w := by
  rcases h' with hw | hw
  · exact .inl hw
  · obtain ⟨a, -, rfl, -⟩ := exists_cell_of_transGen hw
    rcases h with hu | hu
    · exact absurd rfl (hu a)
    · exact .inr (hu.trans hw)

theorem within_of_eq_or (h : u = v ∨ s.Within v u) (h' : s.Within u w) : s.Within v w := by
  rcases h with rfl | h
  · exact h'
  · exact h.trans h'

theorem lt_size_of_cell {c : Cell} (h : s.cell? a = some c) : a < s.cells.size :=
  (Array.getElem?_eq_some_iff.mp h).1

end Store

namespace Look

variable {s : Store} {u v w : Value} {f : Field}

/-! ## What fields and items are inside of -/

theorem within_of_plainField (hf : f.isInner = true)
    (h : run (plainField v f) s = .ok w) : s.Within v w := by
  cases v with
  | member m =>
    rw [plainField, run_ite, run_ite] at h
    split at h
    · cases h
      exact .inl (by simp)
    · split at h
      · cases h
        exact .inl (by simp)
      · exact absurd h Build.run_lacks_ne
  | ref a =>
    simp only [plainField, run_bind, run_node?, ok_bind] at h
    cases hn : s.nodeOf? (.ref a) with
    | none =>
      rw [hn] at h
      exact absurd h Build.run_lacks_ne
    | some n =>
      rw [hn] at h
      dsimp only at h
      split at h
      · next u hu =>
        cases h
        exact (Store.Holds.own hn hf hu).within
      · next hnone =>
        split at h
        · next u hu =>
          cases h
          exact (Store.Holds.lent hn hnone hu).within
        · rw [run_ite] at h
          split at h
          · cases h
            exact .inl (by simp)
          · exact absurd h Build.run_lacks_ne
  | _ => exact absurd h Build.run_lacks_ne

theorem within_of_follow {path : List Field} (hpath : ∀ f ∈ path, f.isInner = true)
    (hv : u = v ∨ s.Within v u) (h : run (follow u path) s = .ok w) : w = v ∨ s.Within v w := by
  induction path generalizing u with
  | nil =>
    cases h
    exact hv
  | cons f rest ih =>
    rw [follow, run_bind] at h
    obtain ⟨x, hx, hrest⟩ := bind_eq_ok.mp h
    have hwithin := within_of_plainField (hpath f (List.mem_cons_self ..)) hx
    exact ih (fun g hg => hpath g (List.mem_cons_of_mem _ hg))
      (.inr (Store.within_of_eq_or hv hwithin)) hrest

theorem within_of_field (hf : f.isInner = true) (h : run (field v f) s = .ok w) :
    s.Within v w := by
  simp only [field, computedPath?, run_bind, run_node?, ok_bind, run_pure] at h
  split at h
  · next path hpath =>
    obtain ⟨n, -, hcomputed⟩ := Option.bind_eq_some_iff.mp hpath
    rw [Form.computed?] at hcomputed
    -- A computed field follows at least one field, so it does not stay where it is.
    split at hcomputed
    · cases hcomputed
      rw [follow, run_bind] at h
      obtain ⟨p, hp, hrest⟩ := bind_eq_ok.mp h
      have hwithin := within_of_plainField rfl hp
      rcases within_of_follow (v := p) (by decide) (.inl rfl) hrest with rfl | hw
      · exact hwithin
      · exact hwithin.trans hw
    · split at hcomputed
      · cases hcomputed
        rw [follow, run_bind] at h
        obtain ⟨p, hp, hrest⟩ := bind_eq_ok.mp h
        cases hrest
        exact within_of_plainField rfl hp
      · cases hcomputed
  · exact within_of_plainField hf h

theorem within_of_plainItems {xs : List Value} (h : run (plainItems v) s = .ok xs) :
    ∀ x ∈ xs, s.Within v x := by
  cases v with
  | text t =>
    cases h
    intro x hx
    obtain ⟨c, -, rfl⟩ := List.mem_map.mp hx
    exact .inl (by simp)
  | ref a =>
    cases hc : s.cell? a with
    | none =>
      simp only [plainItems, cell, run_bind, run_store, ok_bind, hc] at h
      cases h
    | some c =>
      simp only [plainItems, run_bind, run_cell hc, ok_bind] at h
      intro x hx
      refine (Store.Holds.item hc ?_).within
      cases c with
      | node n => cases h
      | list ys | tuple ys | set ys =>
        cases h
        exact hx
      | dict es =>
        cases h
        obtain ⟨e, he, rfl⟩ := List.mem_map.mp hx
        exact List.mem_flatMap.mpr ⟨e, he, List.mem_cons_self ..⟩
  | _ => cases h

theorem within_of_pick {xs : List Value} {owner : String} {index : Value}
    (h : run (pick owner xs index) s = .ok w) : w ∈ xs := by
  rw [pick, run_bind] at h
  obtain ⟨i, -, h⟩ := bind_eq_ok.mp h
  dsimp only at h
  generalize (if i < 0 then i + xs.length else i) = j at h
  rw [run_ite] at h
  split at h
  · cases h
  · cases hj : xs[j.toNat]? with
    | none =>
      rw [hj] at h
      cases h
    | some x =>
      rw [hj] at h
      cases h
      exact List.mem_of_getElem? hj

theorem run_missingKey_ne {α : Type} {r : α} : run (missingKey v : Look α) s ≠ .ok r := by
  intro h
  cases v with
  | ref a =>
    simp only [missingKey, run_bind] at h
    obtain ⟨_, -, h⟩ := bind_eq_ok.mp h
    cases h
  | _ => cases h

theorem within_of_plainItem {index : Value} (h : run (plainItem v index) s = .ok w) :
    s.Within v w := by
  cases v with
  | text t =>
    rw [plainItem, run_bind] at h
    obtain ⟨c, -, h⟩ := bind_eq_ok.mp h
    cases h
    exact .inl (by simp)
  | ref a =>
    cases hc : s.cell? a with
    | none =>
      simp only [plainItem, cell, run_bind, run_store, ok_bind, hc] at h
      cases h
    | some c =>
      simp only [plainItem, run_bind, run_cell hc, ok_bind] at h
      refine (Store.Holds.item hc ?_).within
      cases c with
      | list ys | tuple ys => exact within_of_pick h
      | dict es =>
        dsimp only at h
        split at h
        · next e he =>
          cases h
          exact List.mem_flatMap.mpr ⟨e, List.mem_of_find?_eq_some he, by simp⟩
        · exact absurd h run_missingKey_ne
      | node n | set ys => cases h
  | _ => cases h

theorem eq_or_within_of_holderTo {depth : Nat} (hv : u = v ∨ s.Within v u)
    (h : run (holderTo depth u) s = .ok w) : w = v ∨ s.Within v w := by
  induction depth generalizing u with
  | zero => cases h
  | succ depth ih =>
    simp only [holderTo, run_bind, run_isA, ok_bind, run_ite, run_pure] at h
    split at h
    · obtain ⟨x, hx, hrest⟩ := bind_eq_ok.mp h
      exact ih (.inr (Store.within_of_eq_or hv (within_of_plainField rfl hx))) hrest
    · cases h
      exact hv

theorem eq_or_within_of_holder (h : run (holder v) s = .ok w) : w = v ∨ s.Within v w := by
  rw [holder, run_bind, run_store, ok_bind] at h
  exact eq_or_within_of_holderTo (.inl rfl) h

theorem within_of_item {index : Int} (h : run (item v index) s = .ok w) : s.Within v w := by
  rw [item, itemAt, run_bind] at h
  obtain ⟨u, hu, h⟩ := bind_eq_ok.mp h
  exact Store.within_of_eq_or (eq_or_within_of_holder hu) (within_of_plainItem h)

/-- What a walk over a value meets. -/
theorem within_of_slots {xs : List (Look Value)} {x : Look Value}
    (h : run (slots v) s = .ok xs) (hx : x ∈ xs) (hw : run x s = .ok w) : s.Within v w := by
  have hpure : ∀ {u ys}, run (plainItems u) s = .ok ys → x ∈ ys.map (pure : Value → Look Value) →
      s.Within u w := by
    intro u ys hys hmem
    obtain ⟨y, hy, rfl⟩ := List.mem_map.mp hmem
    cases hw
    exact within_of_plainItems hys _ hy
  simp only [slots, run_bind, run_isA, ok_bind, run_ite] at h
  split at h
  · obtain ⟨count, -, h⟩ := bind_eq_ok.mp h
    obtain ⟨nodes, hnodes, h⟩ := bind_eq_ok.mp h
    obtain ⟨isSeq, -, h⟩ := bind_eq_ok.mp h
    refine Store.within_of_eq_or (eq_or_within_of_holder hnodes) ?_
    split at h
    · obtain ⟨ys, hys, h⟩ := bind_eq_ok.mp h
      cases h
      exact hpure hys hx
    · cases h
      obtain ⟨i, -, rfl⟩ := List.mem_map.mp hx
      exact within_of_plainItem hw
  · obtain ⟨ys, hys, h⟩ := bind_eq_ok.mp h
    cases h
    exact hpure hys hx

end Look

end ProgramTree
