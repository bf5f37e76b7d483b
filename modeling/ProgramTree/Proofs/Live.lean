/-
The scopes that a table points to.

A table points to the current scope and to the one that was current before it. Destroying a
scope moves both on, whichever scope it was: the one before becomes current. So a table
points to a destroyed scope as soon as the scope before the current one is destroyed, and
only then. As long as it is always the current scope that is destroyed, this cannot happen,
since the two are never the same.
-/
import Mathlib.Data.List.Induction
import ProgramTree.Proofs.Scoping

namespace ProgramTree.Scope

/-! ## Runs of requests -/

namespace Tables

variable {d d' : Tables} {r : Request} {i : Nat} {t : Table}

theorem after_eq_of_ok {a : Response} (h : d.perform r = .ok (a, d')) : d.after r = d' := by
  rw [after, h]

theorem run_append (d : Tables) (rs rs' : List Request) :
    d.run (rs ++ rs') = (d.run rs).run rs' := by
  induction rs generalizing d with
  | nil => rfl
  | cons r rs ih => exact ih (d.after r)

/-- A request has an effect, or it fails and changes nothing. -/
theorem effect_after_or_eq (d : Tables) (r : Request) : d.Effect r (d.after r) ∨ d.after r = d := by
  rw [after]
  cases hperform : d.perform r with
  | ok result => exact .inl (effect_of_perform hperform)
  | error e => exact .inr rfl

/-- What every request keeps, a run keeps. -/
theorem run_keeps {P : Tables → Prop} (hstep : ∀ d r d', P d → d.Effect r d' → P d')
    (h : P d) (rs : List Request) : P (d.run rs) := by
  induction rs generalizing d with
  | nil => exact h
  | cons r rs ih =>
    rw [run]
    rcases effect_after_or_eq d r with heffect | heq
    · exact ih (hstep d r _ h heffect)
    · rw [heq]
      exact ih h

/-- Scopes are made and never lost. -/
theorem Effect.length_le (he : d.Effect r d') :
    d.world.scopes.length ≤ d'.world.scopes.length := by
  cases he with
  | create family =>
    rw [scopes_setDefault, length_make]
    exact Nat.le_succ _
  | add name parent change ht hparent =>
    rw [world_setTable, world_setWorld, length_make]
    exact Nat.le_succ _
  | destroy ht hlive => exact Nat.le_refl _
  | setDefault ht hid => exact Nat.le_of_eq (by rw [world_setWorld, scopes_setDefault])
  | define name value ht hcurrent => exact Nat.le_of_eq (by rw [world_setWorld, length_bind])
  | update name value ht hcurrent hs hbound =>
    exact Nat.le_of_eq (by rw [world_setWorld, length_bind])
  | lookup i name => exact Nat.le_refl _

/-! ## What a request does to one table -/

/-- A table as it stands after a request that succeeds: as before, new, with a scope more, or
with a scope less. -/
inductive Turned (d : Tables) (i : Nat) : Request → Table → Prop
  | same {r : Request} {t : Table} (ht : d.tables[i]? = some t) : Turned d i r t
  | created (family : Family) : Turned d i (.create family)
      ⟨family, [d.world.scopes.length], some d.world.scopes.length, none⟩
  | added {t : Table} (name : String) (parent : Option ScopeId) (change : Bool)
      (ht : d.tables[i]? = some t) :
      Turned d i (.add i name parent change) (t.add d.world name parent change).1
  | destroyed {t : Table} {id : ScopeId} (ht : d.tables[i]? = some t) (hlive : id ∈ t.live) :
      Turned d i (.destroy i id)
        { t with live := t.live.erase id, current := t.previous, previous := none }

/-- A table that was put into some place is the one there; the others stay. -/
theorem getElem?_setTable {j : Nat} {t' : Table} (h : (d.setTable j t').tables[i]? = some t) :
    j = i ∧ t = t' ∨ d.tables[i]? = some t := by
  rw [tables_setTable, List.getElem?_set] at h
  by_cases hji : j = i
  · rw [if_pos hji] at h
    split at h
    · exact .inl ⟨hji, (Option.some.inj h).symm⟩
    · cases h
  · rw [if_neg hji] at h
    exact .inr h

theorem getElem?_setTable_self {u : Table} (ht : d.tables[i]? = some t) :
    (d.setTable i u).tables[i]? = some u := by
  rw [tables_setTable, List.getElem?_set_self (List.getElem?_eq_some_iff.mp ht).1]

theorem getElem?_setTable_of_ne {j : Nat} (u : Table) (h : j ≠ i) :
    (d.setTable j u).tables[i]? = d.tables[i]? := by
  rw [tables_setTable, List.getElem?_set_ne h]

theorem Effect.turned (he : d.Effect r d') (ht : d'.tables[i]? = some t) : d.Turned i r t := by
  cases he with
  | create family =>
    rcases Nat.lt_or_ge i d.tables.length with hlt | hge
    · rw [List.getElem?_append_left hlt] at ht
      exact .same ht
    · rw [List.getElem?_append_right hge, List.getElem?_singleton] at ht
      split at ht
      · cases ht
        exact .created family
      · cases ht
  | add name parent change ht' hparent =>
    rcases getElem?_setTable ht with ⟨rfl, rfl⟩ | ht
    · exact .added name parent change ht'
    · exact .same ht
  | destroy ht' hlive =>
    rcases getElem?_setTable ht with ⟨rfl, rfl⟩ | ht
    · exact .destroyed ht' hlive
    · exact .same ht
  | setDefault ht' hid => exact .same ht
  | define name value ht' hcurrent => exact .same ht
  | update name value ht' hcurrent hs hbound => exact .same ht
  | lookup j name => exact .same ht

/-- A live scope can be destroyed. -/
theorem getElem?_after_destroy {id : ScopeId} (ht : d.tables[i]? = some t) (hid : id ∈ t.live) :
    (d.after (.destroy i id)).tables[i]? =
      some { t with live := t.live.erase id, current := t.previous, previous := none } := by
  have hcontains : t.live.contains id = true := List.contains_iff_mem.mpr hid
  rw [after, perform, withTable, ht]
  simp only [Table.destroy, hcontains, if_true, Except.map]
  exact getElem?_setTable_self ht

end Tables

/-! ## Tables in order -/

/-- What always holds of a table while so many scopes were made: its scopes are among these
and each of them is there once, and the current scope is not the one before it. -/
structure Table.Orderly (made : Nat) (t : Table) : Prop where
  live_lt : ∀ id ∈ t.live, id < made
  nodup : t.live.Nodup
  current_lt : ∀ c ∈ t.current, c < made
  previous_lt : ∀ c ∈ t.previous, c < made
  apart : ∀ c ∈ t.previous, t.current ≠ some c

section Orders

variable {d d' : Tables} {r : Request} {i : Nat} {t : Table} {w : World} {made : Nat}

theorem live_add (t : Table) (w : World) (name : String) (parent : Option ScopeId)
    (change : Bool) : (t.add w name parent change).1.live = t.live ++ [w.scopes.length] := by
  rw [Table.add]
  dsimp only
  split
  · rfl
  · rfl

theorem family_add (t : Table) (w : World) (name : String) (parent : Option ScopeId)
    (change : Bool) : (t.add w name parent change).1.family = t.family := by
  rw [Table.add]
  dsimp only
  split
  · rfl
  · rfl

theorem current_add (t : Table) (w : World) (name : String) (parent : Option ScopeId)
    (change : Bool) : (t.add w name parent change).1.current =
      if t.live.isEmpty || change then some w.scopes.length else t.current := by
  rw [Table.add]
  cases hlive : t.live with
  | nil => simp [World.make]
  | cons id ids => cases change <;> simp [World.make]

theorem previous_add (t : Table) (w : World) (name : String) (parent : Option ScopeId)
    (change : Bool) : (t.add w name parent change).1.previous =
      if t.live.isEmpty || change then t.current else t.previous := by
  rw [Table.add]
  cases hlive : t.live with
  | nil => simp
  | cons id ids => cases change <;> simp

/-- A scope that is younger than others is none of them. -/
theorem nodup_append_of_lt {ids : List ScopeId} {n : ScopeId} (h : ids.Nodup)
    (hlt : ∀ id ∈ ids, id < n) : (ids ++ [n]).Nodup := by
  refine List.nodup_append.mpr ⟨h, by simp, ?_⟩
  intro id hid j hj
  rw [List.mem_singleton.mp hj]
  exact Nat.ne_of_lt (hlt id hid)

theorem Table.Orderly.mono (h : t.Orderly made) {made' : Nat} (hle : made ≤ made') :
    t.Orderly made' where
  live_lt := fun id hid => Nat.lt_of_lt_of_le (h.live_lt id hid) hle
  nodup := h.nodup
  current_lt := fun c hc => Nat.lt_of_lt_of_le (h.current_lt c hc) hle
  previous_lt := fun c hc => Nat.lt_of_lt_of_le (h.previous_lt c hc) hle
  apart := h.apart

theorem Table.orderly_root (family : Family) (n : ScopeId) :
    (⟨family, [n], some n, none⟩ : Table).Orderly (n + 1) where
  live_lt := by simp
  nodup := by simp
  current_lt := by simp
  previous_lt := by simp
  apart := by simp

/-- A scope that is added is younger than all that the table knows. -/
theorem Table.Orderly.add (h : t.Orderly w.scopes.length) (name : String)
    (parent : Option ScopeId) (change : Bool) :
    (t.add w name parent change).1.Orderly (w.scopes.length + 1) := by
  have hlt : ∀ id ∈ (t.add w name parent change).1.live, id < w.scopes.length + 1 := by
    rw [live_add]
    intro id hid
    rcases List.mem_append.mp hid with hid | hid
    · exact Nat.lt_succ_of_lt (h.live_lt id hid)
    · rw [List.mem_singleton.mp hid]
      exact Nat.lt_succ_self _
  have hnodup : (t.add w name parent change).1.live.Nodup := by
    rw [live_add]
    exact nodup_append_of_lt h.nodup h.live_lt
  rcases add_current t w name parent change with ⟨hcurrent, hprevious⟩ | ⟨hcurrent, hprevious⟩
  · refine ⟨hlt, hnodup, ?_, ?_, ?_⟩
    · rw [hcurrent]
      simp
    · rw [hprevious]
      exact fun c hc => Nat.lt_succ_of_lt (h.current_lt c hc)
    · rw [hcurrent, hprevious]
      intro c hc heq
      exact Nat.ne_of_gt (h.current_lt c hc) (Option.some.inj heq)
  · refine ⟨hlt, hnodup, ?_, ?_, ?_⟩
    · rw [hcurrent]
      exact fun c hc => Nat.lt_succ_of_lt (h.current_lt c hc)
    · rw [hprevious]
      exact fun c hc => Nat.lt_succ_of_lt (h.previous_lt c hc)
    · rw [hcurrent, hprevious]
      exact h.apart

theorem Table.Orderly.destroy (h : t.Orderly made) (id : ScopeId) :
    ({ t with live := t.live.erase id, current := t.previous, previous := none } :
      Table).Orderly made where
  live_lt := fun j hj => h.live_lt j (List.mem_of_mem_erase hj)
  nodup := h.nodup.erase id
  current_lt := h.previous_lt
  previous_lt := by simp
  apart := by simp

/-- All tables are in order. -/
def Tables.Orderly (d : Tables) : Prop :=
  ∀ t ∈ d.tables, t.Orderly d.world.scopes.length

/-- **One request.** It keeps all tables in order. -/
theorem Tables.Orderly.step (h : d.Orderly) (he : d.Effect r d') : d'.Orderly := by
  intro t ht
  obtain ⟨i, hi⟩ := List.mem_iff_getElem?.mp ht
  cases he.turned hi with
  | same hbefore => exact (h t (List.mem_of_getElem? hbefore)).mono he.length_le
  | created family =>
    cases he
    rw [scopes_setDefault, length_make]
    exact Table.orderly_root family _
  | added name parent change hbefore =>
    cases he
    rw [Tables.world_setTable, Tables.world_setWorld, length_make]
    exact (h _ (List.mem_of_getElem? hbefore)).add name parent change
  | @destroyed t id hbefore hlive =>
    exact ((h t (List.mem_of_getElem? hbefore)).destroy id).mono he.length_le

/-- **A run.** It keeps all tables in order. -/
theorem Tables.Orderly.run (h : d.Orderly) (rs : List Request) : (d.run rs).Orderly :=
  Tables.run_keeps (fun _ _ _ => Tables.Orderly.step) h rs

theorem Tables.orderly_start : Tables.start.Orderly := by
  simp [Tables.Orderly, Tables.start]

end Orders

/-! ## Pointing to live scopes -/

/-- The current scope and the one before it are live, if there are any. -/
def Table.PointsLive (t : Table) : Prop :=
  (∀ c ∈ t.current, c ∈ t.live) ∧ ∀ c ∈ t.previous, c ∈ t.live

section Pointing

variable {d : Tables} {r : Request} {i : Nat} {t : Table} {id : ScopeId}

theorem Table.PointsLive.add (h : t.PointsLive) (w : World) (name : String)
    (parent : Option ScopeId) (change : Bool) : (t.add w name parent change).1.PointsLive := by
  have hkept : ∀ c ∈ t.live, c ∈ t.live ++ [w.scopes.length] :=
    fun c hc => List.mem_append_left _ hc
  rw [Table.PointsLive, live_add]
  rcases add_current t w name parent change with ⟨hcurrent, hprevious⟩ | ⟨hcurrent, hprevious⟩
  · rw [hcurrent, hprevious]
    exact ⟨by simp, fun c hc => hkept c (h.1 c hc)⟩
  · rw [hcurrent, hprevious]
    exact ⟨fun c hc => hkept c (h.1 c hc), fun c hc => hkept c (h.2 c hc)⟩

/-- Destroying a scope leaves the table pointing to live scopes exactly if it is not the
scope before the current one. -/
theorem pointsLive_destroyed_iff (h : t.PointsLive) (hnodup : t.live.Nodup) :
    ({ t with live := t.live.erase id, current := t.previous, previous := none } :
      Table).PointsLive ↔ t.previous ≠ some id := by
  constructor
  · rintro ⟨hcurrent, -⟩ hprevious
    exact hnodup.not_mem_erase (hcurrent id hprevious)
  · intro hne
    refine ⟨?_, by simp⟩
    intro c hc
    have hcid : c ≠ id := fun heq => hne (heq ▸ hc)
    exact (List.mem_erase_of_ne hcid).mpr (h.2 c hc)

/-- **One request.** A table goes on pointing to live scopes unless the request destroys the
scope before the current one. -/
theorem pointsLive_after (h : ∀ t, d.tables[i]? = some t → t.PointsLive)
    (hnodup : ∀ t, d.tables[i]? = some t → t.live.Nodup)
    (hspared : ∀ t id, r = .destroy i id → d.tables[i]? = some t → id ∈ t.live →
      t.previous ≠ some id)
    (ht : (d.after r).tables[i]? = some t) : t.PointsLive := by
  rcases Tables.effect_after_or_eq d r with heffect | heq
  · cases heffect.turned ht with
    | same hbefore => exact h t hbefore
    | created family => exact ⟨by simp, by simp⟩
    | added name parent change hbefore => exact (h _ hbefore).add d.world name parent change
    | @destroyed t id hbefore hlive =>
      exact (pointsLive_destroyed_iff (h t hbefore) (hnodup t hbefore)).mpr
        (hspared t id rfl hbefore hlive)
  · exact h t (heq ▸ ht)

/-- A run has a table point to live scopes all the time if no request destroys the scope
before the current one. -/
theorem pointsLive_run (pre : List Request)
    (hspared : ∀ front id, front ++ [.destroy i id] <+: pre → ∀ t,
      (Tables.start.run front).tables[i]? = some t → id ∈ t.live → t.previous ≠ some id)
    (ht : (Tables.start.run pre).tables[i]? = some t) : t.PointsLive := by
  -- from the last request backwards: the condition on a run holds for its beginnings
  induction pre using List.reverseRecOn generalizing t with
  | nil => simp [Tables.run, Tables.start] at ht
  | append_singleton front r ih =>
    have hfront : ∀ t, (Tables.start.run front).tables[i]? = some t → t.PointsLive := by
      intro t ht
      refine ih ?_ ht
      exact fun front' id hpre => hspared front' id (hpre.trans (List.prefix_append _ _))
    have hbefore := Tables.orderly_start.run front
    rw [Tables.run_append] at ht
    refine pointsLive_after hfront (fun t ht => (hbefore t (List.mem_of_getElem? ht)).nodup) ?_ ht
    rintro t id rfl
    exact hspared front id (List.prefix_refl _) t

/-- **When a table points to live scopes only.** Along a run of requests to any number of
tables, the current scope of a table and the one before it are live in every state exactly if
no request to the table destroys a scope while it is the one before the current. It is enough
that every request destroys the scope that is current. -/
theorem points_live_along_run_iff (rs : List Request) (i : Nat) :
    ((∀ pre, pre <+: rs → ∀ t, (Tables.start.run pre).tables[i]? = some t → t.PointsLive) ↔
      ∀ pre id, pre ++ [.destroy i id] <+: rs → ∀ t,
        (Tables.start.run pre).tables[i]? = some t → id ∈ t.live → t.previous ≠ some id) ∧
    ((∀ pre id, pre ++ [.destroy i id] <+: rs → ∀ t,
        (Tables.start.run pre).tables[i]? = some t → t.current = some id) →
      ∀ pre, pre <+: rs → ∀ t, (Tables.start.run pre).tables[i]? = some t → t.PointsLive) := by
  refine ⟨⟨?_, ?_⟩, ?_⟩
  · intro hlive pre id hpre t ht hid
    -- the state before the request points to live scopes, and so does the one after it
    have hbefore := hlive pre ((List.prefix_append _ _).trans hpre) t ht
    have hafter := Tables.getElem?_after_destroy ht hid
    have hrun : Tables.start.run (pre ++ [.destroy i id]) =
        (Tables.start.run pre).after (.destroy i id) := Tables.run_append _ _ _
    have horder := Tables.orderly_start.run pre t (List.mem_of_getElem? ht)
    exact (pointsLive_destroyed_iff hbefore horder.nodup).mp (hlive _ hpre _ (hrun ▸ hafter))
  · intro hspared pre hpre t ht
    exact pointsLive_run pre (fun front id hfront => hspared front id (hfront.trans hpre)) ht
  · intro hcurrent pre hpre t ht
    refine pointsLive_run pre ?_ ht
    intro front id hfront t ht _ hprevious
    have horder := Tables.orderly_start.run front t (List.mem_of_getElem? ht)
    exact horder.apart id hprevious (hcurrent front id (hfront.trans hpre) t ht)

/-- Destroying the root while a scope within it is current: the table goes on in the root,
which is no longer there. -/
theorem destroyedRoot_is_current :
    ∃ t, (Tables.start.run [.create .plain, .add 0 "inner" none true, .destroy 0 0]).tables[0]? =
      some t ∧ t.live = [1] ∧ t.current = some 0 ∧ ¬ t.PointsLive := by
  refine ⟨⟨.plain, [1], some 0, none⟩, rfl, rfl, rfl, ?_⟩
  simp [Table.PointsLive]

end Pointing

end ProgramTree.Scope
