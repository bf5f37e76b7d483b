/-
One tree beside another.

A store mirrors another one if what is read of a value in the one is also read of the value that
stands for it in the other (`Mirror`). Not every field has to be read alike: `K` says which fields
of which values are. A tree of the fragment and the tree that stands for it have the same shape, if
all that the fragment asks of a node is about such fields (`Requirement.Met.shared`). In particular
every tree has the same shape as itself.
-/
import Mathlib.Data.Set.List
import ProgramTree.Proofs.Assembly
import ProgramTree.Proofs.Core.Shared

namespace ProgramTree

/-- Two nodes of one form, with paired values in the fields that are not hidden. -/
structure Node.Alike (hides : Form → Field → Bool) (E : Value → Value → Prop) (n m : Node) :
    Prop where
  form : m.form = n.form
  fields (f : Field) : hides n.form f = false → Option.Rel E (n.get? f) (m.get? f)

/-- Two cells of one sort that hold paired values. -/
inductive Cell.Alike (hides : Form → Field → Bool) (E : Value → Value → Prop) : Cell → Cell → Prop
  | node {n m : Node} : n.Alike hides E m → Alike hides E (.node n) (.node m)
  | list {xs ys : List Value} : List.Forall₂ E xs ys → Alike hides E (.list xs) (.list ys)
  | tuple {xs ys : List Value} : List.Forall₂ E xs ys → Alike hides E (.tuple xs) (.tuple ys)
  | set {xs ys : List Value} : List.Forall₂ E xs ys → Alike hides E (.set xs) (.set ys)
  | dict {es fs : List (Value × Value)} :
      List.Forall₂ (fun e f => E e.1 f.1 ∧ E e.2 f.2) es fs → Alike hides E (.dict es) (.dict fs)

end ProgramTree

open ProgramTree.Look

namespace ProgramTree.Target

/-- What is read of a value in one store is read in the other store of a value that stands for it,
in the fields that `K` picks out. -/
structure Mirror (s s' : Store) (K : Value → Field → Prop) (E : Value → Value → Prop) : Prop where
  plain {v v' : Value} : E v v' → (∀ a, v ≠ .ref a) → v' = v
  cell {a : Address} {c : Cell} {v' : Value} : E (.ref a) v' → s.cell? a = some c →
    ∃ b d, v' = .ref b ∧ s'.cell? b = some d ∧ c.Alike (fun _ _ => true) E d
  nodes (v : Value) : K v .nodes
  field {v v' w : Value} {f : Field} : E v v' → K v f → run (field v f) s = .ok w →
    ∃ w', run (Look.field v' f) s' = .ok w' ∧ E w w'
  missing {v v' : Value} {f : Field} : E v v' → K v f → run (field? v f) s = .ok none →
    run (field? v' f) s' = .ok none

/-- All that a requirement asks of a value is about fields that are picked out. -/
def Requirement.Sees (s : Store) (K : Value → Field → Prop) : Requirement → Value → Prop
  | .form _, _ => True
  | .comparisons, v => K v .ops ∧ K v .comparators
  | .mayCall, v => K v .fn
  | .named f, v | .someNamed f, v | .declared f, v => K v f ∧
      ∀ w xs, run (field v f) s = .ok w → Contains s w xs → ∀ x ∈ xs, K x .name
  | .inside f q, v => K v f ∧ ∀ w, run (field v f) s = .ok w → q.Sees s K w
  | .mayInside f q, v => K v f ∧ ∀ w, run (field v f) s = .ok w → w ≠ .none → q.Sees s K w
  | .missing f, v | .text f, v | .boolean f, v | .integer f, v | .scalar f, v | .label f, v
  | .scalarPair f, v | .unarySign f, v | .child f _, v | .mayChild f _, v | .children f _, v
  | .mayChildren f _, v | .entries f, v | .block f, v | .mayBlock f, v | .branch f, v
  | .mayBranch f, v | .mayItems f _, v => K v f

section Sides

variable {s : Bool → Store} {K : Value → Field → Prop} {E : Value → Value → Prop}
  {P : Value → Prop} {Q : (Bool → Value) → Prop} {v : Bool → Value} {x : Value} {f : Field}
  {g : Form} {r : Role} {l : Address} {xs : List Value}

/-- Two lists of paired values are one list of pairs. -/
theorem exists_pairs {α : Type} {T : α → α → Prop} {xs ys : List α} (h : List.Forall₂ T xs ys) :
    ∃ zs : List (Bool → α), zs.map (· false) = xs ∧ zs.map (· true) = ys ∧
      ∀ z ∈ zs, T (z false) (z true) := by
  induction h with
  | nil => exact ⟨[], rfl, rfl, List.forall_mem_nil _⟩
  | @cons x y _ _ hxy _ ih =>
    obtain ⟨zs, rfl, rfl, hz⟩ := ih
    exact ⟨(fun i => cond i y x) :: zs, rfl, rfl, List.forall_mem_cons.mpr ⟨hxy, hz⟩⟩

namespace Mirror

variable (hE : Mirror (s false) (s true) K E)

include hE

section

variable (hv : E (v false) (v true))

include hv

theorem holding (hK : K (v false) f) (hx : run (Look.field (v false) f) (s false) = .ok x) :
    ∃ w, w false = x ∧ Holding s v f w ∧ E (w false) (w true) := by
  obtain ⟨y, hy, hxy⟩ := hE.field hv hK hx
  exact ⟨fun i => cond i y x, rfl, Bool.forall_bool.mpr ⟨hx, hy⟩, hxy⟩

/-- What is no cell is the same on both sides. -/
theorem holding_plain (hK : K (v false) f) (hx : run (Look.field (v false) f) (s false) = .ok x)
    (hplain : ∀ a, x ≠ .ref a) : Holding s v f fun _ => x := by
  obtain ⟨y, hy, hxy⟩ := hE.field hv hK hx
  obtain rfl := hE.plain hxy hplain
  exact Bool.forall_bool.mpr ⟨hx, hy⟩

theorem lacking (hK : K (v false) f) (h : run (field? (v false) f) (s false) = .ok none) :
    ∀ i, run (field? (v i) f) (s i) = .ok none :=
  Bool.forall_bool.mpr ⟨h, hE.missing hv hK h⟩

theorem hasForm (h : (s false).formOf? (v false) = some g) : HasForm s v g := by
  refine Bool.forall_bool.mpr ⟨h, ?_⟩
  obtain ⟨a, ha, -⟩ := Store.ref_of_formOf? h
  rw [ha] at hv h
  obtain ⟨n, hn, rfl⟩ := Option.map_eq_some_iff.mp h
  obtain ⟨b, d, hb, hd, halike⟩ := hE.cell hv (Store.node?_eq_some.mp hn)
  cases halike with
  | @node n m hnm =>
    rw [hb, Store.formOf?, show (s true).nodeOf? (.ref b) = some m from Store.node?_eq_some.mpr hd,
      Option.map_some, hnm.form]

omit hv in
theorem cells {a : Address} {c : Cell} {w : Bool → Value} (ha : w false = .ref a)
    (hw : E (w false) (w true)) (hc : (s false).cell? a = some c) :
    ∃ b d, w = (fun i => .ref (cond i b a)) ∧ (s true).cell? b = some d ∧
      c.Alike (fun _ _ => true) E d := by
  rw [ha] at hw
  obtain ⟨b, d, hb, hd, halike⟩ := hE.cell hw hc
  refine ⟨b, d, funext (Bool.forall_bool.mpr ⟨ha, hb⟩), hd, halike⟩

theorem containers (h : IsContainer (s false) (v false) l xs) :
    ∃ m zs, zs.map (· false) = xs ∧ Containers s v m zs ∧ ∀ z ∈ zs, E (z false) (z true) := by
  obtain ⟨g, hg, hisA⟩ := (Option.any_eq_true _ _).mp h.isNodeList
  obtain ⟨w, hl, hw, hE'⟩ := hE.holding hv (hE.nodes _) h.nodes
  obtain ⟨b, d, rfl, hd, halike⟩ := hE.cells hl hE' h.items
  cases halike with
  | list hxs =>
    obtain ⟨zs, rfl, rfl, hz⟩ := exists_pairs hxs
    have hform := hE.hasForm hv hg true
    refine ⟨fun i => cond i b l, zs, rfl, Bool.forall_bool.mpr ⟨h, ?_, hw true, hd⟩, hz⟩
    rw [hform]
    exact hisA

theorem collects (h : Contains (s false) (v false) xs) :
    ∃ zs, zs.map (· false) = xs ∧ Collects s v zs ∧ ∀ z ∈ zs, E (z false) (z true) := by
  generalize hx : v false = x at h
  cases h with
  | container h =>
    rw [← hx] at h
    obtain ⟨m, zs, hzs, hc, hz⟩ := hE.containers hv h
    exact ⟨zs, hzs, fun i => .container (hc i), hz⟩
  | plain hc hseq =>
    obtain ⟨b, d, rfl, hd, halike⟩ := hE.cells hx hv hc
    cases halike with
    | node _ | dict _ => cases hseq
    | list hxs | tuple hxs | set hxs =>
      cases hseq
      obtain ⟨zs, rfl, rfl, hz⟩ := exists_pairs hxs
      exact ⟨zs, rfl, Bool.forall_bool.mpr ⟨.plain hc rfl, .plain hd rfl⟩, hz⟩

/-- Things that have the same names. -/
theorem named (hsees : (Requirement.named f).Sees (s false) K (v false)) {w : Value}
    (hw : run (Look.field (v false) f) (s false) = .ok w) (hxs : Contains (s false) w xs)
    (hnames : ∀ x ∈ xs, ∃ id, run (Look.field x .name) (s false) = .ok (.text id)) :
    ∃ u zs, Holding s v f u ∧ Collects s u zs ∧ zs.map (· false) = xs ∧
      ∀ z ∈ zs, E (z false) (z true) ∧ ∃ id, Holding s z .name fun _ => .text id := by
  obtain ⟨u, rfl, hu, huu⟩ := hE.holding hv hsees.1 hw
  obtain ⟨zs, rfl, hzs, hz⟩ := hE.collects huu hxs
  refine ⟨u, zs, hu, hzs, rfl, fun z hmem => ⟨hz z hmem, ?_⟩⟩
  obtain ⟨id, hid⟩ := hnames _ (List.mem_map_of_mem hmem)
  have hK := hsees.2 _ _ hw hxs _ (List.mem_map_of_mem hmem)
  exact ⟨id, hE.holding_plain (hz z hmem) hK hid (by simp)⟩

end

variable (hQ : ∀ z : Bool → Value, P (z false) → E (z false) (z true) → Q z)

include hQ

theorem peers {z : Bool → Value} (hz : E (z false) (z true)) (h : Child (s false) P r (z false)) :
    Peers s Q r z := by
  obtain ⟨p, hp, hr⟩ := Option.map_eq_some_iff.mp h.2
  obtain ⟨g, hg, hs⟩ := Option.bind_eq_some_iff.mp hp
  exact ⟨hQ z h.1 hz, g, hE.hasForm hz hg, by rw [hs, Option.map_some, hr]⟩

theorem all_peers {zs : List (Bool → Value)} (hz : ∀ z ∈ zs, E (z false) (z true))
    (h : ∀ x ∈ zs.map (· false), Child (s false) P r x) : ∀ z ∈ zs, Peers s Q r z :=
  fun z hmem => hE.peers hQ (hz z hmem) (h _ (List.mem_map_of_mem hmem))

theorem peerBlocks {b : Bool → Value} (hb : E (b false) (b true))
    (h : IsBlock (s false) P (b false)) : PeerBlocks s Q b := by
  obtain ⟨l, xs, hxs, hc⟩ := h
  obtain ⟨m, zs, rfl, hzs, hz⟩ := hE.containers hb hxs
  refine ⟨m, zs, hzs, fun z hmem => ?_⟩
  exact (hc _ (List.mem_map_of_mem hmem)).imp (hE.peers hQ (hz z hmem)) (hE.peers hQ (hz z hmem))

theorem branch (hv : E (v false) (v true)) (hK : K (v false) f)
    (h : (Requirement.branch f).Met (s false) P (v false)) :
    (Requirement.branch f).Shared s Q v := by
  obtain ⟨b, l, x, hb, hx, hc⟩ := h
  obtain ⟨w, rfl, hw, hww⟩ := hE.holding hv hK hb
  obtain ⟨m, zs, heq, hzs, hz⟩ := hE.containers hww hx
  obtain ⟨z, rfl, rfl⟩ := List.map_eq_singleton_iff.mp heq
  exact ⟨w, m, z, hw, hzs, hE.peers hQ (hz z (List.mem_singleton_self z)) hc⟩

end Mirror

/-- **Beside each other.** What a value meets, it meets together with the value that stands for
it. The induction is on the requirement, for the sake of those inside. -/
theorem Requirement.Met.shared (hE : Mirror (s false) (s true) K E)
    (hQ : ∀ z : Bool → Value, P (z false) → E (z false) (z true) → Q z) {q : Requirement}
    (hv : E (v false) (v true)) (hsees : q.Sees (s false) K (v false))
    (h : q.Met (s false) P (v false)) : q.Shared s Q v := by
  induction q generalizing v with
  | form g => exact hE.hasForm hv h
  | missing f => exact hE.lacking hv hsees h
  | text f | boolean f | integer f =>
    obtain ⟨t, ht⟩ := h
    exact ⟨t, hE.holding_plain hv hsees ht (by simp)⟩
  | scalar f =>
    obtain ⟨w, hw, hscalar⟩ := h
    exact ⟨w, hE.holding_plain hv hsees hw (by rintro a rfl; cases hscalar), hscalar⟩
  | label f =>
    refine h.imp (fun hnone => hE.holding_plain hv hsees hnone (by simp)) ?_
    exact fun ⟨t, ht⟩ => ⟨t, hE.holding_plain hv hsees ht (by simp)⟩
  | scalarPair f =>
    obtain ⟨a, x, y, hw, hcell, hx, hy⟩ := h
    obtain ⟨w, ha, hw, hww⟩ := hE.holding hv hsees hw
    obtain ⟨b, d, rfl, hd, halike⟩ := hE.cells ha hww hcell
    cases halike with
    | tuple hxs =>
      obtain ⟨x', _, hxx, hrest, rfl⟩ := List.forall₂_cons_left_iff.mp hxs
      obtain ⟨y', _, hyy, hnil, rfl⟩ := List.forall₂_cons_left_iff.mp hrest
      cases hnil
      obtain rfl := hE.plain hxx (by rintro a rfl; cases hx)
      obtain rfl := hE.plain hyy (by rintro a rfl; cases hy)
      exact ⟨fun i => cond i b a, x', y', hw, Bool.forall_bool.mpr ⟨hcell, hd⟩, hx, hy⟩
  | unarySign f =>
    obtain ⟨code, sign, hcode, hsign⟩ := h
    exact ⟨code, sign, hE.holding_plain hv hsees hcode (by simp), hsign⟩
  | child f r =>
    obtain ⟨x, hx, hc⟩ := h
    obtain ⟨w, rfl, hw, hww⟩ := hE.holding hv hsees hx
    exact ⟨w, hw, hE.peers hQ hww hc⟩
  | mayChild f r =>
    rcases h with hnone | ⟨x, hx, hc⟩
    · exact .inl (hE.holding_plain hv hsees hnone (by simp))
    · obtain ⟨w, rfl, hw, hww⟩ := hE.holding hv hsees hx
      exact .inr ⟨w, hw, hE.peers hQ hww hc⟩
  | children f r =>
    obtain ⟨x, xs, hx, hxs, hc⟩ := h
    obtain ⟨w, rfl, hw, hww⟩ := hE.holding hv hsees hx
    obtain ⟨zs, rfl, hzs, hz⟩ := hE.collects hww hxs
    exact ⟨w, zs, hw, hzs, hE.all_peers hQ hz hc⟩
  | mayChildren f r =>
    rcases h with hnone | ⟨x, l, y, ys, hx, hys, hc⟩
    · exact .inl (hE.holding_plain hv hsees hnone (by simp))
    · obtain ⟨w, rfl, hw, hww⟩ := hE.holding hv hsees hx
      obtain ⟨m, zs, heq, hzs, hz⟩ := hE.containers hww hys
      rw [← heq] at hc
      cases zs with
      | nil => cases heq
      | cons z zs => exact .inr ⟨w, m, z, zs, hw, hzs, hE.all_peers hQ hz hc⟩
  | entries f =>
    obtain ⟨a, es, hw, hcell, hc⟩ := h
    obtain ⟨w, ha, hw, hww⟩ := hE.holding hv hsees hw
    obtain ⟨b, d, rfl, hd, halike⟩ := hE.cells ha hww hcell
    cases halike with
    | dict hes =>
      obtain ⟨zs, rfl, rfl, hz⟩ := exists_pairs hes
      refine ⟨fun i => cond i b a, zs.map fun z => (fun i => (z i).1, fun i => (z i).2), hw, ?_, ?_⟩
      · simp only [List.map_map, Bool.forall_bool]
        exact ⟨hcell, hd⟩
      · simp only [List.forall_mem_map] at hc ⊢
        exact fun z hmem => ⟨hE.peers hQ (hz z hmem).1 (hc z hmem).1,
          hE.peers hQ (hz z hmem).2 (hc z hmem).2⟩
  | block f =>
    obtain ⟨x, hx, hblock⟩ := h
    obtain ⟨w, rfl, hw, hww⟩ := hE.holding hv hsees hx
    exact ⟨w, hw, hE.peerBlocks hQ hww hblock⟩
  | mayBlock f =>
    rcases h with hnone | ⟨x, hx, hblock⟩
    · exact .inl (hE.holding_plain hv hsees hnone (by simp))
    · obtain ⟨w, rfl, hw, hww⟩ := hE.holding hv hsees hx
      exact .inr ⟨w, hw, hE.peerBlocks hQ hww hblock⟩
  | branch f => exact hE.branch hQ hv hsees h
  | mayBranch f =>
    exact h.imp (fun hnone => hE.holding_plain hv hsees hnone (by simp)) (hE.branch hQ hv hsees)
  | named f =>
    obtain ⟨x, xs, hx, hxs, hnames⟩ := h
    obtain ⟨u, zs, hu, hzs, -, hz⟩ := hE.named hv hsees hx hxs hnames
    exact ⟨u, zs, hu, hzs, fun z hmem => (hz z hmem).2⟩
  | someNamed f =>
    obtain ⟨x, xs, hx, hxs, hne, hnames⟩ := h
    obtain ⟨u, zs, hu, hzs, rfl, hz⟩ := hE.named hv hsees hx hxs hnames
    exact ⟨u, zs, hu, hzs, by simpa using hne, fun z hmem => (hz z hmem).2⟩
  | declared f =>
    obtain ⟨x, xs, hx, hxs, hdecl⟩ := h
    obtain ⟨u, zs, hu, hzs, rfl, hz⟩ := hE.named hv hsees hx hxs fun y hy => (hdecl y hy).2
    refine ⟨u, zs, hu, hzs, fun z hmem => ⟨?_, (hz z hmem).2⟩⟩
    exact hE.hasForm (hz z hmem).1 (hdecl _ (List.mem_map_of_mem hmem)).1
  | comparisons =>
    obtain ⟨o, ops, x, xs, ho, hops, htexts, hx, hxs, hc, hlen⟩ := h
    obtain ⟨w, rfl, hw, hww⟩ := hE.holding hv hsees.1 ho
    obtain ⟨zs, rfl, hzs, hz⟩ := hE.collects hww hops
    obtain ⟨u, rfl, hu, huu⟩ := hE.holding hv hsees.2 hx
    obtain ⟨ys, rfl, hys, hy⟩ := hE.collects huu hxs
    -- The signs are texts, so they are the same on both sides.
    obtain ⟨codes, rfl⟩ : zs ∈ Set.range (List.map fun (code : String) _ => Value.text code) := by
      rw [Set.range_list_map]
      intro z hmem
      obtain ⟨code, hcode⟩ := htexts _ (List.mem_map_of_mem hmem)
      have heq := hE.plain (hz z hmem) (by simp [hcode])
      exact ⟨code, funext (Bool.forall_bool.mpr ⟨hcode.symm, (heq.trans hcode).symm⟩)⟩
    exact ⟨w, u, ys, codes, hw, hzs, hu, hys, hE.all_peers hQ hy hc, by simpa using hlen⟩
  | mayCall =>
    refine h.imp (hE.lacking hv hsees) ?_
    exact fun ⟨t, ht⟩ => ⟨t, hE.holding_plain hv hsees ht (by simp)⟩
  | mayItems f r =>
    refine h.imp (hE.lacking hv hsees) ?_
    rintro ⟨a, xs, hw, hcell, hc⟩
    obtain ⟨w, ha, hw, hww⟩ := hE.holding hv hsees hw
    obtain ⟨b, d, rfl, hd, halike⟩ := hE.cells ha hww hcell
    cases halike with
    | list hxs =>
      obtain ⟨zs, rfl, rfl, hz⟩ := exists_pairs hxs
      exact ⟨fun i => cond i b a, zs, hw, Bool.forall_bool.mpr ⟨hcell, hd⟩, hE.all_peers hQ hz hc⟩
  | inside f q ih =>
    obtain ⟨x, hx, hq⟩ := h
    obtain ⟨w, rfl, hw, hww⟩ := hE.holding hv hsees.1 hx
    exact ⟨w, hw, ih hww (hsees.2 _ hx) hq⟩
  | mayInside f q ih =>
    have hmissing : run (field (v false) f) (s false) = .ok .none →
        (Requirement.mayInside f q).Shared s Q v := fun hnone =>
      .inl (hE.holding_plain hv hsees.1 hnone (by simp))
    rcases h with hnone | ⟨x, hx, hq⟩
    · exact hmissing hnone
    · by_cases hnone : x = .none
      · exact hmissing (hnone ▸ hx)
      · obtain ⟨w, rfl, hw, hww⟩ := hE.holding hv hsees.1 hx
        exact .inr ⟨w, hw, ih hww (hsees.2 _ hx hnone) hq⟩

end Sides

end ProgramTree.Target
