/-
The scopes that are live in a table.

A table keeps a list of its scopes and drops those that are destroyed. The statement here is
about the past: which scopes the requests to the table made, and which ones they destroyed.
`events` is that past, read off the requests that succeeded and not off the tables, and
`remaining` is what it leaves. A scope is never made twice, so one that was destroyed does not
come back.
-/
import Mathlib.Data.List.Nodup
import ProgramTree.Proofs.Live

namespace ProgramTree.Scope

/-! ## What happened to the scopes of a table -/

/-- A scope was made for a table, or was destroyed there. -/
inductive Event
  | made (id : ScopeId)
  | destroyed (id : ScopeId)
deriving DecidableEq, Repr

/-- What a request does to the scopes of a table if it succeeds. The scope that is made next
goes by the number of those that were made before it. -/
def Request.event? (d : Tables) (i : Nat) : Request → Option Event
  | .create _ => if d.tables.length = i then some (.made d.world.scopes.length) else none
  | .add j _ _ _ => if j = i then some (.made d.world.scopes.length) else none
  | .destroy j id => if j = i then some (.destroyed id) else none
  | _ => none

/-- All that a run does to the scopes of a table, in order; a request that fails does
nothing. -/
def Tables.events (i : Nat) : Tables → List Request → List Event
  | _, [] => []
  | d, r :: rs =>
    match d.perform r with
    | .ok (_, d') => (r.event? d i).toList ++ events i d' rs
    | .error _ => events i d rs

/-- The scopes made, in the order of making. -/
def madeIn (log : List Event) : List ScopeId :=
  log.filterMap fun
    | .made id => some id
    | .destroyed _ => none

/-- The scopes destroyed, in the order of their end. -/
def destroyedIn (log : List Event) : List ScopeId :=
  log.filterMap fun
    | .made _ => none
    | .destroyed id => some id

/-- The scopes that were made and not destroyed, in the order of making. -/
def remaining (log : List Event) : List ScopeId :=
  (madeIn log).filter fun id => id ∉ destroyedIn log

section Events

variable {log : List Event} {id : ScopeId}

@[simp] theorem madeIn_append_made : madeIn (log ++ [.made id]) = madeIn log ++ [id] := by
  simp [madeIn]

@[simp] theorem madeIn_append_destroyed : madeIn (log ++ [.destroyed id]) = madeIn log := by
  simp [madeIn]

@[simp] theorem destroyedIn_append_made : destroyedIn (log ++ [.made id]) = destroyedIn log := by
  simp [destroyedIn]

@[simp] theorem destroyedIn_append_destroyed :
    destroyedIn (log ++ [.destroyed id]) = destroyedIn log ++ [id] := by
  simp [destroyedIn]

theorem mem_remaining : id ∈ remaining log ↔ id ∈ madeIn log ∧ id ∉ destroyedIn log := by
  simp [remaining]

theorem remaining_append_made (h : id ∉ destroyedIn log) :
    remaining (log ++ [.made id]) = remaining log ++ [id] := by
  simp [remaining, h]

theorem remaining_append_destroyed :
    remaining (log ++ [.destroyed id]) = (remaining log).filter fun j => j != id := by
  simp only [remaining, madeIn_append_destroyed, destroyedIn_append_destroyed, List.filter_filter]
  refine List.filter_congr fun j _ => ?_
  by_cases hj : j = id <;> simp [hj]

end Events

/-! ## Runs -/

/-- A table has the scopes that remain of its past, which is about scopes that were made, the
older ones first. A table that is not there has no past. -/
structure Recorded (d : Tables) (i : Nat) (log : List Event) : Prop where
  live : ∀ t, d.tables[i]? = some t → t.live = remaining log
  unmade : d.tables[i]? = none → log = []
  made_lt : ∀ id ∈ madeIn log, id < d.world.scopes.length
  destroyed_lt : ∀ id ∈ destroyedIn log, id < d.world.scopes.length
  sorted : (madeIn log).Pairwise (· < ·)

section Runs

variable {d d' : Tables} {r : Request} {i : Nat} {t : Table} {log : List Event}

theorem recorded_start (i : Nat) : Recorded Tables.start i [] where
  live := by simp [Tables.start]
  unmade := fun _ => rfl
  made_lt := by simp [madeIn]
  destroyed_lt := by simp [destroyedIn]
  sorted := by simp [madeIn]

/-- Nothing happened to the scopes of the table. -/
theorem Recorded.keep (h : Recorded d i log) (hle : d.world.scopes.length ≤ d'.world.scopes.length)
    (hlive : d'.tables[i]?.map Table.live = d.tables[i]?.map Table.live) : Recorded d' i log where
  live := by
    intro t ht
    rw [ht, Option.map_some, eq_comm, Option.map_eq_some_iff] at hlive
    obtain ⟨t', ht', heq⟩ := hlive
    rw [← heq, h.live t' ht']
  unmade := by
    intro hnone
    rw [hnone, Option.map_none, eq_comm, Option.map_eq_none_iff] at hlive
    exact h.unmade hlive
  made_lt := fun id hid => Nat.lt_of_lt_of_le (h.made_lt id hid) hle
  destroyed_lt := fun id hid => Nat.lt_of_lt_of_le (h.destroyed_lt id hid) hle
  sorted := h.sorted

/-- A scope was made for the table: the youngest of all. -/
theorem Recorded.make (h : Recorded d i log)
    (hlength : d'.world.scopes.length = d.world.scopes.length + 1)
    (ht : d'.tables[i]? = some t) (hlive : t.live = remaining log ++ [d.world.scopes.length]) :
    Recorded d' i (log ++ [.made d.world.scopes.length]) where
  live := by
    intro t' ht'
    obtain rfl := Option.some.inj (ht.symm.trans ht')
    -- A scope that was not made yet was not destroyed either.
    rw [hlive, remaining_append_made fun hid => Nat.lt_irrefl _ (h.destroyed_lt _ hid)]
  unmade := fun hnone => by rw [ht] at hnone; cases hnone
  made_lt := by
    simp only [madeIn_append_made, List.mem_append, List.mem_singleton]
    rintro id (hid | rfl)
    · exact hlength ▸ Nat.lt_succ_of_lt (h.made_lt id hid)
    · exact hlength ▸ Nat.lt_succ_self _
  destroyed_lt := fun id hid =>
    hlength ▸ Nat.lt_succ_of_lt (h.destroyed_lt id (destroyedIn_append_made ▸ hid))
  sorted := by
    rw [madeIn_append_made, List.pairwise_append]
    refine ⟨h.sorted, List.pairwise_singleton _ _, fun id hid j hj => ?_⟩
    rw [List.mem_singleton.mp hj]
    exact h.made_lt id hid

/-- A live scope of the table was destroyed. -/
theorem Recorded.destroy (h : Recorded d i log) {id : ScopeId} (ht : d.tables[i]? = some t)
    (hid : id ∈ t.live) (hworld : d'.world = d.world) {t' : Table} (ht' : d'.tables[i]? = some t')
    (hlive : t'.live = t.live.erase id) : Recorded d' i (log ++ [.destroyed id]) where
  live := by
    intro u hu
    obtain rfl := Option.some.inj (ht'.symm.trans hu)
    -- A scope is there once, so that erasing it and leaving it out are the same.
    have hnodup : (remaining log).Nodup :=
      (h.sorted.imp fun hlt => Nat.ne_of_lt hlt).filter _
    rw [hlive, h.live t ht, remaining_append_destroyed, hnodup.erase_eq_filter]
  unmade := fun hnone => by rw [ht'] at hnone; cases hnone
  made_lt := by
    rw [madeIn_append_destroyed, hworld]
    exact h.made_lt
  destroyed_lt := by
    rw [destroyedIn_append_destroyed, hworld]
    simp only [List.mem_append, List.mem_singleton]
    rintro j (hj | rfl)
    · exact h.destroyed_lt j hj
    · rw [h.live t ht, mem_remaining] at hid
      exact h.made_lt j hid.1
  sorted := by
    rw [madeIn_append_destroyed]
    exact h.sorted

/-- **One request.** A table has what remains of its past and of what the request does. -/
theorem Recorded.step (h : Recorded d i log) (he : d.Effect r d') :
    Recorded d' i (log ++ (r.event? d i).toList) := by
  have hle := he.length_le
  cases he with
  | create family =>
    rw [Request.event?]
    by_cases hi : d.tables.length = i
    · subst hi
      -- The table is new, and has no past before its root.
      have hlog := h.unmade (List.getElem?_eq_none (Nat.le_refl _))
      subst hlog
      rw [if_pos rfl]
      refine h.make ?_ List.getElem?_concat_length rfl
      rw [scopes_setDefault, length_make]
    · rw [if_neg hi, Option.toList_none, List.append_nil]
      refine h.keep hle (congrArg _ ?_)
      rcases Nat.lt_or_ge i d.tables.length with hlt | hge
      · exact List.getElem?_append_left hlt
      · rw [List.getElem?_eq_none hge, List.getElem?_eq_none]
        rw [List.length_append, List.length_singleton]
        omega
  | @add j t name parent change ht hparent =>
    rw [Request.event?]
    by_cases hj : j = i
    · subst hj
      rw [if_pos rfl]
      refine h.make ?_ (Tables.getElem?_setTable_self ht) ?_
      · rw [Tables.world_setTable, Tables.world_setWorld, length_make]
      · rw [live_add, h.live t ht]
    · rw [if_neg hj, Option.toList_none, List.append_nil]
      exact h.keep hle (congrArg _ (Tables.getElem?_setTable_of_ne _ hj))
  | @destroy j t id ht hid =>
    rw [Request.event?]
    by_cases hj : j = i
    · subst hj
      rw [if_pos rfl]
      exact h.destroy ht hid rfl (Tables.getElem?_setTable_self ht) rfl
    · rw [if_neg hj, Option.toList_none, List.append_nil]
      exact h.keep hle (congrArg _ (Tables.getElem?_setTable_of_ne _ hj))
  | setDefault | define | update | lookup =>
    simpa [Request.event?] using h.keep hle rfl

/-- **A run.** A table has what remains of its past. -/
theorem Recorded.run (h : Recorded d i log) (rs : List Request) :
    Recorded (d.run rs) i (log ++ d.events i rs) := by
  -- The record grows with the run; a request that fails adds nothing on either side.
  induction rs generalizing d log with
  | nil => simpa [Tables.run, Tables.events] using h
  | cons r rs ih =>
    rw [Tables.run, Tables.after, Tables.events]
    cases hperform : d.perform r with
    | error e => exact ih h
    | ok result =>
      obtain ⟨a, d'⟩ := result
      simpa only [List.append_assoc] using ih (h.step (Tables.effect_of_perform hperform))

end Runs

/-! ## The oldest and the youngest scope -/

section Ends

variable {t : Table} {id : ScopeId}

theorem first_eq_ok_iff (h : t.live.Pairwise (· < ·)) :
    t.first = .ok id ↔ id ∈ t.live ∧ ∀ j ∈ t.live, id ≤ j := by
  rw [Table.first]
  cases hlive : t.live with
  | nil => simp
  | cons k rest =>
    rw [hlive, List.pairwise_cons] at h
    have hleast : ∀ j ∈ k :: rest, k ≤ j := by
      simp only [List.mem_cons, forall_eq_or_imp]
      exact ⟨Nat.le_refl k, fun j hj => Nat.le_of_lt (h.1 j hj)⟩
    constructor
    · rintro ⟨⟩
      exact ⟨List.mem_cons_self, hleast⟩
    · rintro ⟨hid, hle⟩
      rw [Nat.le_antisymm (hleast id hid) (hle k List.mem_cons_self)]

theorem last_eq_ok_iff (h : t.live.Pairwise (· < ·)) :
    t.last = .ok id ↔ id ∈ t.live ∧ ∀ j ∈ t.live, j ≤ id := by
  rw [Table.last]
  rcases List.eq_nil_or_concat t.live with hlive | ⟨rest, k, hlive⟩
  · simp [hlive]
  · rw [List.concat_eq_append] at hlive
    rw [hlive] at h ⊢
    rw [List.pairwise_append] at h
    have hgreatest : ∀ j ∈ rest ++ [k], j ≤ k := by
      intro j hj
      rcases List.mem_append.mp hj with hj | hj
      · exact Nat.le_of_lt (h.2.2 j hj k (List.mem_singleton_self k))
      · exact Nat.le_of_eq (List.mem_singleton.mp hj)
    have hk : k ∈ rest ++ [k] := List.mem_append_right _ (List.mem_singleton_self k)
    rw [List.getLast?_concat]
    constructor
    · rintro ⟨⟩
      exact ⟨hk, hgreatest⟩
    · rintro ⟨hid, hle⟩
      rw [Nat.le_antisymm (hle k hk) (hgreatest id hid)]

theorem first_eq_error_iff : t.first = .error .exhausted ↔ t.live = [] := by
  rw [Table.first]
  cases t.live <;> simp

theorem last_eq_error_iff : t.last = .error (.indexRange "list") ↔ t.live = [] := by
  rw [Table.last]
  rcases List.eq_nil_or_concat t.live with hlive | ⟨rest, k, hlive⟩ <;> simp [hlive]

theorem destroy_fails_iff :
    (∃ e, t.destroy (some id) = .error e ∧ e.category = .key) ↔ id ∉ t.live := by
  rw [Table.destroy]
  by_cases hid : id ∈ t.live
  · simp [hid]
  · simp [hid, Fault.category]

theorem exists_destroy_iff : (∃ t', t.destroy (some id) = .ok t') ↔ id ∈ t.live := by
  rw [Table.destroy]
  by_cases hid : id ∈ t.live
  · simp [hid]
  · simp [hid]

/-- **The live scopes are those made and not destroyed.** After any requests to any number of
tables, the scopes of a table are those that requests to it made, its root among them, and
that no request to it has destroyed; each is there once, the older ones first. The first one is
the oldest of them and the last one the youngest, and asking for these fails exactly if there
is none. A scope can be destroyed exactly if it is one of them; for any other one, never made for
the table or destroyed there before, destroying fails for want of a key. -/
theorem live_eq_remaining (rs : List Request) (i : Nat) (t : Table)
    (ht : (Tables.start.run rs).tables[i]? = some t) :
    t.live = remaining (Tables.start.events i rs) ∧ t.live.Pairwise (· < ·) ∧
    ((∀ id, t.first = .ok id ↔ id ∈ t.live ∧ ∀ j ∈ t.live, id ≤ j) ∧
      (t.first = .error .exhausted ↔ t.live = [])) ∧
    ((∀ id, t.last = .ok id ↔ id ∈ t.live ∧ ∀ j ∈ t.live, j ≤ id) ∧
      (t.last = .error (.indexRange "list") ↔ t.live = [])) ∧
    ∀ id, ((∃ t', t.destroy (some id) = .ok t') ↔ id ∈ t.live) ∧
      ((∃ e, t.destroy (some id) = .error e ∧ e.category = .key) ↔
        id ∉ madeIn (Tables.start.events i rs) ∨ id ∈ destroyedIn (Tables.start.events i rs)) := by
  have hrecorded := (recorded_start i).run rs
  rw [List.nil_append] at hrecorded
  have hlive := hrecorded.live t ht
  have hsorted : t.live.Pairwise (· < ·) := hlive ▸ hrecorded.sorted.filter _
  refine ⟨hlive, hsorted, ⟨fun id => first_eq_ok_iff hsorted, first_eq_error_iff⟩,
    ⟨fun id => last_eq_ok_iff hsorted, last_eq_error_iff⟩, fun id => ⟨exists_destroy_iff, ?_⟩⟩
  rw [destroy_fails_iff, hlive, mem_remaining, not_and_or, not_not]

/-- Two tables that share a scope as a parent; a scope is destroyed from the middle of the
first one, and again, and in the second one, where it was never made. -/
def sharedMiddle : List Request :=
  [.create .plain, .create .base, .add 0 "a" none true, .add 0 "b" none false,
    .add 1 "c" (some 2) true, .destroy 0 2, .destroy 0 2, .destroy 1 3]

theorem sharedMiddle_live : ∃ t, (Tables.start.run sharedMiddle).tables[0]? = some t ∧
    t.live = remaining (Tables.start.events 0 sharedMiddle) ∧ t.live = [0, 3] ∧
    t.first = .ok 0 ∧ t.last = .ok 3 ∧
    ∃ e, t.destroy (some 2) = .error e ∧ e.category = .key := by
  have h := live_eq_remaining sharedMiddle 0 ⟨.plain, [0, 3], some 0, none⟩ rfl
  refine ⟨_, rfl, h.1, rfl, (h.2.2.1.1 0).mpr (by decide), (h.2.2.2.1.1 3).mpr (by decide), ?_⟩
  exact (h.2.2.2.2 2).2.mpr (.inr (by decide))

end Ends

end ProgramTree.Scope
