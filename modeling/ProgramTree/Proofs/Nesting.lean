/-
Scopes that open and close like brackets.

A scope that is added becomes the current one, and when it is destroyed the table should be
back where it was. The table remembers one scope behind the current one, though, and none at
all once a scope was destroyed: `previous` is spent by the first scope that closes. So a
scope in which another one was opened and closed has nothing behind it any more, and the
table loses its current scope when the outer one closes.

What is open is told from the requests alone (`Tables.opened`): the scopes that were added
and not yet destroyed, the innermost first. The main statement compares this stack with the
current scope at every point of a well-nested run. A step of the argument is one pair of
brackets with what stands inside and after it, as in `WellNested`.
-/
import ProgramTree.Proofs.Live

namespace ProgramTree.Scope

/-! ## Well-nested requests -/

/-- The requests that are about the names of a table and not about its scopes. -/
inductive Request.OnNames (i : Nat) : Request → Prop
  | define (name : String) (value : Value) : OnNames i (.define i name value)
  | update (name : String) (value : Value) : OnNames i (.update i name value)
  | lookup (name : String) : OnNames i (.lookup i name)

/-- Requests to a table that nest: each scope is added as the current one, and the same scope
is destroyed after the requests within it, which nest too. -/
inductive WellNested (i : Nat) : Tables → List Request → Prop
  | nil (d : Tables) : WellNested i d []
  | names {d : Tables} {r : Request} {rs : List Request} (hr : r.OnNames i)
      (hrest : WellNested i (d.after r) rs) : WellNested i d (r :: rs)
  | scope {d d' : Tables} {name : String} {parent : Option ScopeId} {n : ScopeId}
      {inner rest : List Request}
      (hadd : d.perform (.add i name parent true) = .ok (.scope n, d'))
      (hinner : WellNested i d' inner)
      (hrest : WellNested i ((d'.run inner).after (.destroy i n)) rest) :
      WellNested i d (.add i name parent true :: (inner ++ .destroy i n :: rest))

namespace Tables

/-- The current scope of a table, if there is one. -/
def currentOf? (d : Tables) (i : Nat) : Option ScopeId :=
  d.tables[i]?.bind Table.current

/-- What a request adds to the open scopes of a table, the innermost first, or takes away. -/
def openAfter (d : Tables) (i : Nat) (scopes : List ScopeId) (r : Request) : List ScopeId :=
  match r, d.perform r with
  | .add j _ _ true, .ok (.scope n, _) => if j = i then n :: scopes else scopes
  | .destroy j id, _ => if j = i then scopes.erase id else scopes
  | _, _ => scopes

/-- The open scopes of a table after requests, the innermost first. -/
def opened (i : Nat) : Tables → List ScopeId → List Request → List ScopeId
  | _, scopes, [] => scopes
  | d, scopes, r :: rs => opened i (d.after r) (d.openAfter i scopes r) rs

/-- At every point of a run the current scope is the innermost open one, and a given one
where none is open. -/
def TracksInnermost (d : Tables) (i : Nat) (outer : Option ScopeId) (rs : List Request) : Prop :=
  ∀ pre, pre <+: rs → (d.run pre).currentOf? i = (d.opened i [] pre).head?.or outer

/-- At no point of a run are more than so many scopes open. -/
def NestsWithin (d : Tables) (i : Nat) (depth : Nat) (rs : List Request) : Prop :=
  ∀ pre, pre <+: rs → (d.opened i [] pre).length ≤ depth

end Tables

/-! ## Points of a run -/

section Points

variable {α : Type} {P : List α → Prop}

theorem forall_prefix_cons (a : α) (l : List α) :
    (∀ pre, pre <+: a :: l → P pre) ↔ P [] ∧ ∀ pre, pre <+: l → P (a :: pre) := by
  constructor
  · intro h
    exact ⟨h [] List.nil_prefix, fun pre hpre => h _ (List.cons_prefix_cons.mpr ⟨rfl, hpre⟩)⟩
  · rintro ⟨hnil, hcons⟩ pre hpre
    rcases List.prefix_cons_iff.mp hpre with rfl | ⟨rest, rfl, hrest⟩
    · exact hnil
    · exact hcons rest hrest

theorem forall_prefix_append (l l' : List α) :
    (∀ pre, pre <+: l ++ l' → P pre) ↔
      (∀ pre, pre <+: l → P pre) ∧ ∀ pre, pre <+: l' → P (l ++ pre) := by
  constructor
  · intro h
    refine ⟨fun pre hpre => h pre (hpre.trans (List.prefix_append l l')), ?_⟩
    exact fun pre hpre => h _ ((List.prefix_append_right_inj l).mpr hpre)
  · rintro ⟨hleft, hright⟩ pre hpre
    rcases List.prefix_or_prefix_of_prefix hpre (List.prefix_append l l') with hl | ⟨rest, rfl⟩
    · exact hleft pre hl
    · exact hright rest ((List.prefix_append_right_inj l).mp hpre)

/-- The points of a run with a bracket in front: before it, inside it, and after it. -/
theorem forall_prefix_bracket (a b : α) (inner rest : List α) :
    (∀ pre, pre <+: a :: (inner ++ b :: rest) → P pre) ↔
      P [] ∧ (∀ pre, pre <+: inner → P (a :: pre)) ∧
        ∀ pre, pre <+: rest → P (a :: (inner ++ b :: pre)) := by
  rw [forall_prefix_cons, forall_prefix_append, forall_prefix_cons]
  constructor
  · rintro ⟨hnil, hinner, -, hrest⟩
    exact ⟨hnil, hinner, hrest⟩
  · rintro ⟨hnil, hinner, hrest⟩
    refine ⟨hnil, hinner, ?_, hrest⟩
    rw [List.append_nil]
    exact hinner inner (List.prefix_refl inner)

end Points

/-! ## The steps of a well-nested run -/

section Steps

variable {d d' : Tables} {r : Request} {i : Nat} {t : Table} {rs pre : List Request}
  {name : String} {parent : Option ScopeId} {n : ScopeId} {inner rest : List Request}

namespace Tables

theorem currentOf?_eq (ht : d.tables[i]? = some t) : d.currentOf? i = t.current := by
  rw [currentOf?, ht, Option.bind_some]

theorem opened_append (d : Tables) (i : Nat) (scopes : List ScopeId) (rs rs' : List Request) :
    d.opened i scopes (rs ++ rs') = (d.run rs).opened i (d.opened i scopes rs) rs' := by
  induction rs generalizing d scopes with
  | nil => rfl
  | cons r rs ih => exact ih (d.after r) (d.openAfter i scopes r)

theorem openAfter_of_onNames (hr : r.OnNames i) (scopes : List ScopeId) :
    d.openAfter i scopes r = scopes := by
  cases hr <;> rfl

/-- Requests about names change no table. -/
theorem tables_after_of_onNames (hr : r.OnNames i) : (d.after r).tables = d.tables := by
  rcases effect_after_or_eq d r with heffect | heq
  · generalize d.after r = d' at heffect
    cases hr <;> cases heffect <;> rfl
  · rw [heq]

section

variable (hadd : d.perform (.add i name parent true) = .ok (.scope n, d'))

include hadd

theorem openAfter_of_add (scopes : List ScopeId) :
    d.openAfter i scopes (.add i name parent true) = n :: scopes := by
  simp [openAfter, hadd]

/-- A scope that is added is new to the table. It becomes the current one, and the scope that
was current stands behind it. -/
theorem getElem?_of_add (hd : d.Orderly) (ht : d.tables[i]? = some t) :
    n ∉ t.live ∧ d'.tables[i]? = some ⟨t.family, t.live ++ [n], some n, t.current⟩ := by
  have hi : i < d.tables.length := (List.getElem?_eq_some_iff.mp ht).1
  have hadded : d.addTo i name parent true t = (.scope n, d') := by
    cases parent with
    | none =>
      obtain ⟨t', ht', hadded⟩ := withTable_eq_ok.mp hadd
      cases ht.symm.trans ht'
      exact Except.ok.inj hadded
    | some p =>
      obtain ⟨t', ht', hadded⟩ := withTable_eq_ok.mp hadd
      cases ht.symm.trans ht'
      exact Except.ok.inj (withScope_eq_ok.mp hadded).2
  rw [addTo_eq] at hadded
  cases hadded
  refine ⟨?_, ?_⟩
  · intro hmem
    exact Nat.lt_irrefl _ ((hd t (List.mem_of_getElem? ht)).live_lt _ hmem)
  · rw [tables_setTable, tables_setWorld, List.getElem?_set, if_pos rfl, if_pos hi, Table.add]
    simp only [Bool.or_true, if_true]
    rfl

/-- Inside a bracket its scope is the outermost one open. -/
theorem opened_inside (scopes : List ScopeId) (pre : List Request) :
    d.opened i scopes (.add i name parent true :: pre) = d'.opened i (n :: scopes) pre := by
  rw [opened, openAfter_of_add hadd, after_eq_of_ok hadd]

theorem run_inside (pre : List Request) : d.run (.add i name parent true :: pre) = d'.run pre := by
  rw [run, after_eq_of_ok hadd]

theorem run_behind (inner pre : List Request) :
    d.run (.add i name parent true :: (inner ++ .destroy i n :: pre)) =
      ((d'.run inner).after (.destroy i n)).run pre := by
  rw [run_inside hadd, run_append, run]

end

end Tables

/-- What nests leaves no scope open. -/
theorem WellNested.opened_self (h : WellNested i d rs) (scopes : List ScopeId) :
    d.opened i scopes rs = scopes := by
  induction h generalizing scopes with
  | nil d => rfl
  | names hr hrest ih =>
    rw [Tables.opened, Tables.openAfter_of_onNames hr]
    exact ih scopes
  | @scope d d' name parent n inner rest hadd hinner hrest ihInner ihRest =>
    rw [Tables.opened_inside hadd, Tables.opened_append, ihInner, Tables.opened]
    have hclosed : (d'.run inner).openAfter i (n :: scopes) (.destroy i n) = scopes := by
      rw [Tables.openAfter, if_pos rfl, List.erase_cons_head]
    rw [hclosed]
    exact ihRest scopes

/-- Behind a bracket its scope is no longer open. -/
theorem WellNested.opened_behind (hinner : WellNested i d' inner)
    (hadd : d.perform (.add i name parent true) = .ok (.scope n, d')) (scopes : List ScopeId)
    (pre : List Request) :
    d.opened i scopes (.add i name parent true :: (inner ++ .destroy i n :: pre)) =
      ((d'.run inner).after (.destroy i n)).opened i scopes pre := by
  rw [Tables.opened_inside hadd, Tables.opened_append, hinner.opened_self, Tables.opened,
    Tables.openAfter, if_pos rfl, List.erase_cons_head]

/-- At every point of a run that nests, the scopes that were open before it are open still,
behind those that the run opened. -/
theorem WellNested.opened_prefix (h : WellNested i d rs) :
    ∀ pre, pre <+: rs → ∀ scopes, d.opened i scopes pre = d.opened i [] pre ++ scopes := by
  induction h with
  | nil d =>
    intro pre hpre scopes
    rw [List.prefix_nil.mp hpre]
    rfl
  | names hr hrest ih =>
    rw [forall_prefix_cons]
    refine ⟨fun scopes => rfl, fun pre hpre scopes => ?_⟩
    rw [Tables.opened, Tables.opened, Tables.openAfter_of_onNames hr,
      Tables.openAfter_of_onNames hr]
    exact ih pre hpre scopes
  | @scope d d' name parent n inner rest hadd hinner hrest ihInner ihRest =>
    rw [forall_prefix_bracket]
    refine ⟨fun scopes => rfl, fun pre hpre scopes => ?_, fun pre hpre scopes => ?_⟩
    · rw [Tables.opened_inside hadd, Tables.opened_inside hadd, ihInner pre hpre (n :: scopes),
        ihInner pre hpre [n], List.append_assoc, List.singleton_append]
    · rw [hinner.opened_behind hadd, hinner.opened_behind hadd]
      exact ihRest pre hpre scopes

/-! ### How deep a run nests -/

theorem Tables.NestsWithin.mono {k m : Nat} (h : d.NestsWithin i k rs) (hkm : k ≤ m) :
    d.NestsWithin i m rs :=
  fun pre hpre => Nat.le_trans (h pre hpre) hkm

theorem nestsWithin_names (hr : r.OnNames i) (k : Nat) :
    d.NestsWithin i k (r :: rs) ↔ (d.after r).NestsWithin i k rs := by
  rw [Tables.NestsWithin, forall_prefix_cons]
  simp only [Tables.opened, Tables.openAfter_of_onNames hr]
  exact and_iff_right (Nat.zero_le k)

/-- A bracket nests one deeper than what is inside it. -/
theorem WellNested.nestsWithin_scope (hinner : WellNested i d' inner)
    (hadd : d.perform (.add i name parent true) = .ok (.scope n, d')) (k : Nat) :
    d.NestsWithin i (k + 1) (.add i name parent true :: (inner ++ .destroy i n :: rest)) ↔
      d'.NestsWithin i k inner ∧
        ((d'.run inner).after (.destroy i n)).NestsWithin i (k + 1) rest := by
  have hinside : ∀ pre, pre <+: inner →
      ((d.opened i [] (.add i name parent true :: pre)).length ≤ k + 1 ↔
        (d'.opened i [] pre).length ≤ k) := by
    intro pre hpre
    rw [Tables.opened_inside hadd, hinner.opened_prefix pre hpre [n], List.length_append,
      List.length_singleton]
    exact Nat.add_le_add_iff_right
  rw [Tables.NestsWithin, forall_prefix_bracket]
  simp only [hinner.opened_behind hadd]
  constructor
  · rintro ⟨-, hin, hbehind⟩
    exact ⟨fun pre hpre => (hinside pre hpre).mp (hin pre hpre), hbehind⟩
  · rintro ⟨hin, hbehind⟩
    exact ⟨Nat.zero_le _, fun pre hpre => (hinside pre hpre).mpr (hin pre hpre), hbehind⟩

theorem not_nestsWithin_zero (hadd : d.perform (.add i name parent true) = .ok (.scope n, d')) :
    ¬ d.NestsWithin i 0 (.add i name parent true :: rs) := by
  intro h
  have hopen := h [.add i name parent true] (List.prefix_append [_] rs)
  rw [Tables.opened_inside hadd] at hopen
  exact Nat.not_succ_le_zero 0 hopen

/-! ### Where a run goes -/

theorem tracksInnermost_names (hr : r.OnNames i) (outer : Option ScopeId) :
    d.TracksInnermost i outer (r :: rs) ↔ (d.after r).TracksInnermost i outer rs := by
  have hcurrent : (d.after r).currentOf? i = d.currentOf? i := by
    rw [Tables.currentOf?, Tables.currentOf?, Tables.tables_after_of_onNames hr]
  rw [Tables.TracksInnermost, forall_prefix_cons]
  simp only [Tables.opened, Tables.openAfter_of_onNames hr, Tables.run]
  constructor
  · exact fun h => h.2
  · intro h
    exact ⟨hcurrent ▸ h [] List.nil_prefix, h⟩

/-- Inside a bracket its scope takes the place of the outer one. -/
theorem WellNested.tracksInnermost_scope (hinner : WellNested i d' inner)
    (hadd : d.perform (.add i name parent true) = .ok (.scope n, d')) (outer : Option ScopeId) :
    d.TracksInnermost i outer (.add i name parent true :: (inner ++ .destroy i n :: rest)) ↔
      d.currentOf? i = outer ∧ d'.TracksInnermost i (some n) inner ∧
        ((d'.run inner).after (.destroy i n)).TracksInnermost i outer rest := by
  have hinside : ∀ pre, pre <+: inner →
      (d.opened i [] (.add i name parent true :: pre)).head?.or outer =
        (d'.opened i [] pre).head?.or (some n) := by
    intro pre hpre
    rw [Tables.opened_inside hadd, hinner.opened_prefix pre hpre [n], List.head?_append]
    cases (d'.opened i [] pre).head? <;> rfl
  rw [Tables.TracksInnermost, forall_prefix_bracket]
  constructor
  · rintro ⟨houter, hin, hbehind⟩
    refine ⟨houter, fun pre hpre => ?_, fun pre hpre => ?_⟩
    · rw [← Tables.run_inside hadd, ← hinside pre hpre]
      exact hin pre hpre
    · rw [← Tables.run_behind hadd, ← hinner.opened_behind hadd]
      exact hbehind pre hpre
  · rintro ⟨houter, hin, hbehind⟩
    refine ⟨houter, fun pre hpre => ?_, fun pre hpre => ?_⟩
    · rw [Tables.run_inside hadd, hinside pre hpre]
      exact hin pre hpre
    · rw [Tables.run_behind hadd, hinner.opened_behind hadd]
      exact hbehind pre hpre

end Steps

/-! ## The two scopes that a table remembers -/

section Remembered

variable {d : Tables} {i : Nat} {t : Table} {rs : List Request}

/-- How a table comes out of a run that nests. Its scopes are the same. The scope behind the
current one is forgotten as soon as one scope was opened and closed, and the current one is
lost as soon as one was opened inside another. -/
structure Tables.Leaves (d : Tables) (i : Nat) (rs : List Request) (t t' : Table) : Prop where
  table : (d.run rs).tables[i]? = some t'
  live : t'.live = t.live
  previous_kept : d.NestsWithin i 0 rs → t'.previous = t.previous
  previous_lost : ¬ d.NestsWithin i 0 rs → t'.previous = none
  current_kept : d.NestsWithin i 1 rs → t'.current = t.current
  current_lost : ¬ d.NestsWithin i 1 rs → t'.current = none

/-- Closing a bracket: what stood behind its scope becomes current, and nothing stands behind
that. -/
theorem Tables.Leaves.close {family : Family} {live : List ScopeId} {n : ScopeId}
    {outer : Option ScopeId} {t' : Table}
    (h : d.Leaves i rs ⟨family, live ++ [n], some n, outer⟩ t') (hnew : n ∉ live) :
    ((d.run rs).after (.destroy i n)).tables[i]? =
      some ⟨t'.family, live, t'.previous, none⟩ := by
  have hmem : n ∈ t'.live := by
    rw [h.live]
    exact List.mem_append_right _ (List.mem_singleton_self n)
  rw [Tables.getElem?_after_destroy h.table hmem, h.live, List.erase_append_right _ hnew,
    List.erase_cons_head, List.append_nil]

/-- **A run that nests** leaves a table with what is said in `Tables.Leaves`. -/
theorem WellNested.leaves (h : WellNested i d rs) (hd : d.Orderly) (ht : d.tables[i]? = some t) :
    ∃ t', d.Leaves i rs t t' := by
  induction h generalizing t with
  | nil d =>
    have hwithin : ∀ k, d.NestsWithin i k [] := by
      intro k pre hpre
      rw [List.prefix_nil.mp hpre]
      exact Nat.zero_le k
    exact ⟨t, ht, rfl, fun _ => rfl, fun hdeep => absurd (hwithin 0) hdeep, fun _ => rfl,
      fun hdeep => absurd (hwithin 1) hdeep⟩
  | @names d r rs hr hrest ih =>
    have hsame : (d.after r).tables[i]? = some t := by rwa [Tables.tables_after_of_onNames hr]
    obtain ⟨t', hleaves⟩ := ih (hd.run [r]) hsame
    refine ⟨t', hleaves.table, hleaves.live, ?_, ?_, ?_, ?_⟩
    · exact fun hflat => hleaves.previous_kept ((nestsWithin_names hr 0).mp hflat)
    · exact fun hdeep => hleaves.previous_lost (mt (nestsWithin_names hr 0).mpr hdeep)
    · exact fun hflat => hleaves.current_kept ((nestsWithin_names hr 1).mp hflat)
    · exact fun hdeep => hleaves.current_lost (mt (nestsWithin_names hr 1).mpr hdeep)
  | @scope d d' name parent n inner rest hadd hinner hrest ihInner ihRest =>
    obtain ⟨hnew, hopened⟩ := Tables.getElem?_of_add hadd hd ht
    have hd' : d'.Orderly := hd.step (Tables.effect_of_perform hadd)
    -- the bracket is opened, what is inside it leaves `t₁`, what is behind it leaves `t₂`
    obtain ⟨t₁, hin⟩ := ihInner hd' hopened
    obtain ⟨t₂, hout⟩ := ihRest ((hd'.run inner).run [.destroy i n]) (hin.close hnew)
    have hdeep : ¬ d.NestsWithin i 0
        (.add i name parent true :: (inner ++ .destroy i n :: rest)) := not_nestsWithin_zero hadd
    refine ⟨t₂, ?_, hout.live, fun hflat => absurd hflat hdeep, fun _ => ?_, ?_, ?_⟩
    · rw [Tables.run_behind hadd]
      exact hout.table
    · by_cases hflat : ((d'.run inner).after (.destroy i n)).NestsWithin i 0 rest
      · exact hout.previous_kept hflat
      · exact hout.previous_lost hflat
    · intro hone
      obtain ⟨hflat, hbehind⟩ := (hinner.nestsWithin_scope hadd 0).mp hone
      exact (hout.current_kept hbehind).trans (hin.previous_kept hflat)
    · intro htwo
      by_cases hbehind : ((d'.run inner).after (.destroy i n)).NestsWithin i 1 rest
      · have hinside : ¬ d'.NestsWithin i 0 inner :=
          fun hflat => htwo ((hinner.nestsWithin_scope hadd 0).mpr ⟨hflat, hbehind⟩)
        exact (hout.current_kept hbehind).trans (hin.previous_lost hinside)
      · exact hout.current_lost hbehind

/-- A run that nests keeps to the innermost scope exactly if it opens no scope inside another
one; a table without a current scope has room for one more, since nothing is what it comes
back to. -/
theorem WellNested.tracksInnermost_iff (h : WellNested i d rs) (hd : d.Orderly)
    (ht : d.tables[i]? = some t) : d.TracksInnermost i t.current rs ↔
      d.NestsWithin i (if t.current.isSome then 1 else 2) rs := by
  induction h generalizing t with
  | nil d =>
    constructor
    · intro _ pre hpre
      rw [List.prefix_nil.mp hpre]
      exact Nat.zero_le _
    · intro _ pre hpre
      rw [List.prefix_nil.mp hpre]
      exact Tables.currentOf?_eq ht
  | @names d r rs hr hrest ih =>
    have hsame : (d.after r).tables[i]? = some t := by rwa [Tables.tables_after_of_onNames hr]
    rw [tracksInnermost_names hr, nestsWithin_names hr]
    exact ih (hd.run [r]) hsame
  | @scope d d' name parent n inner rest hadd hinner hrest ihInner ihRest =>
    obtain ⟨hnew, hopened⟩ := Tables.getElem?_of_add hadd hd ht
    have hd' : d'.Orderly := hd.step (Tables.effect_of_perform hadd)
    obtain ⟨t₁, hin⟩ := hinner.leaves hd' hopened
    have hclosed := hin.close hnew
    have hcurrent := Tables.currentOf?_eq ht
    have hinside : d'.TracksInnermost i (some n) inner ↔ d'.NestsWithin i 1 inner :=
      ihInner hd' hopened
    -- closing the bracket leads back unless something was opened inside and used up `previous`
    have hback : t₁.previous = t.current ↔ t.current = none ∨ d'.NestsWithin i 0 inner := by
      by_cases hflat : d'.NestsWithin i 0 inner
      · simp [hflat, hin.previous_kept hflat]
      · simp [hflat, hin.previous_lost hflat, eq_comm]
    -- behind the bracket the run is where it was, or it does not track the scopes any more
    have hbehind : ((d'.run inner).after (.destroy i n)).TracksInnermost i t.current rest ↔
        t₁.previous = t.current ∧ ((d'.run inner).after (.destroy i n)).NestsWithin i
          (if t.current.isSome then 1 else 2) rest := by
      have hrest := ihRest ((hd'.run inner).run [.destroy i n]) hclosed
      dsimp only at hrest
      constructor
      · intro htracks
        have hsame : t₁.previous = t.current :=
          (Tables.currentOf?_eq hclosed).symm.trans (htracks [] List.nil_prefix)
        rw [hsame] at hrest
        exact ⟨hsame, hrest.mp htracks⟩
      · rintro ⟨hsame, hwithin⟩
        rw [hsame] at hrest
        exact hrest.mpr hwithin
    rw [hinner.tracksInnermost_scope hadd, hinside, hbehind, hback]
    cases houter : t.current with
    | none =>
      rw [houter] at hcurrent
      simp [hcurrent, hinner.nestsWithin_scope hadd 1]
    | some c =>
      rw [houter] at hcurrent
      have hmono : d'.NestsWithin i 0 inner → d'.NestsWithin i 1 inner :=
        fun hflat => hflat.mono (Nat.le_succ 0)
      simp only [hcurrent, Option.isSome_some, if_true, reduceCtorEq, false_or, true_and,
        hinner.nestsWithin_scope hadd 0]
      exact and_iff_right_of_imp fun hflat => hmono hflat.1

/-- **When the current scope follows the nesting.** Take a table after any requests to any
number of tables, and requests to it that nest. The table is back in its current scope at the
end exactly if it had none, or no scope was opened inside another one. The current scope is
the innermost open one at every point exactly if no more than one scope is open at a time, or
two where the table had no current scope. -/
theorem current_follows_nesting_iff (rs₀ : List Request) {i : Nat} {t : Table}
    {rs : List Request} (ht : (Tables.start.run rs₀).tables[i]? = some t)
    (hnest : WellNested i (Tables.start.run rs₀) rs) :
    (((Tables.start.run rs₀).run rs).currentOf? i = t.current ↔
      t.current = none ∨ (Tables.start.run rs₀).NestsWithin i 1 rs) ∧
    ((Tables.start.run rs₀).TracksInnermost i t.current rs ↔
      (Tables.start.run rs₀).NestsWithin i (if t.current.isSome then 1 else 2) rs) := by
  have horder := Tables.orderly_start.run rs₀
  refine ⟨?_, hnest.tracksInnermost_iff horder ht⟩
  obtain ⟨t', hleaves⟩ := hnest.leaves horder ht
  rw [Tables.currentOf?_eq hleaves.table]
  by_cases hone : (Tables.start.run rs₀).NestsWithin i 1 rs
  · simp [hone, hleaves.current_kept hone]
  · simp [hone, hleaves.current_lost hone, eq_comm]

/-- Two scopes one after the other, with a name in the first. -/
def scopesInTurn : List Request :=
  [.add 0 "first" none true, .define 0 "x" (.int 1), .destroy 0 1, .add 0 "second" none true,
    .destroy 0 2]

/-- Two scopes in turn nest, and the table is in the right scope at every point. -/
theorem scopesInTurn_follow_nesting :
    WellNested 0 (Tables.start.run [.create .base]) scopesInTurn ∧
      (Tables.start.run [.create .base]).TracksInnermost 0 (some 0) scopesInTurn := by
  have hnest : WellNested 0 (Tables.start.run [.create .base]) scopesInTurn :=
    @WellNested.scope 0 _ _ _ _ _ [.define 0 "x" (.int 1)] _ rfl
      (.names (.define "x" (.int 1)) (.nil _))
      (@WellNested.scope 0 _ _ _ _ _ [] _ rfl (.nil _) (.nil _))
  have hwithin : (Tables.start.run [.create .base]).NestsWithin 0 1 scopesInTurn := by
    simp only [Tables.NestsWithin, scopesInTurn, forall_prefix_cons, List.prefix_nil, forall_eq]
    decide
  have hroot : (Tables.start.run [.create .base]).tables[0]? =
      some ⟨.base, [0], some 0, none⟩ := rfl
  exact ⟨hnest, (current_follows_nesting_iff [.create .base] hroot hnest).2.mpr hwithin⟩

/-- One scope inside another one. -/
def scopeInScope : List Request :=
  [.add 0 "outer" none true, .add 0 "inner" none true, .destroy 0 2, .destroy 0 1]

/-- A scope inside a scope: when both are closed, the table is not in the root again. It has
no current scope at all. -/
theorem scopeInScope_loses_current :
    WellNested 0 (Tables.start.run [.create .plain]) scopeInScope ∧
      (Tables.start.run [.create .plain]).currentOf? 0 = some 0 ∧
      ((Tables.start.run [.create .plain]).run scopeInScope).currentOf? 0 = none := by
  have hnest : WellNested 0 (Tables.start.run [.create .plain]) scopeInScope :=
    @WellNested.scope 0 _ _ _ _ _ [.add 0 "inner" none true, .destroy 0 2] _ rfl
      (@WellNested.scope 0 _ _ _ _ _ [] _ rfl (.nil _) (.nil _)) (.nil _)
  exact ⟨hnest, rfl, rfl⟩

end Remembered

end ProgramTree.Scope
