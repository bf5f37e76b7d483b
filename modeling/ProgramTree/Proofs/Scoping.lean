/-
Looking a name up is lexical scoping.

The tables know a name by what stands in the scopes now. The statement here is about the
past instead: which requests succeeded, and which scope was current when they did. The
history of a run is the list of its writes, and `Traced` is what relates it to the
scopes: a scope binds a name to the latest value written for it there.

The way from a scope to its parents has no bound that one could see. It ends because a
parent is always older than the scope, and a run keeps that: the only parents that a
scope can be given were there before it.
-/
import ProgramTree.Proofs.Tables

namespace ProgramTree.Scope

/-! ## Histories -/

/-- A name that was bound in a scope, by a definition or by an update. -/
structure Write where
  scope : ScopeId
  name : String
  value : Value
  isDefinition : Bool
deriving DecidableEq, Repr

/-- A write of a name in a scope. -/
def Write.binds (e : Write) (id : ScopeId) (name : String) : Bool :=
  e.scope = id && e.name = name

/-- The name was ever defined in the scope. -/
def wasDefined (log : List Write) (name : String) (id : ScopeId) : Bool :=
  log.any fun e => e.isDefinition && e.binds id name

/-- The latest value written for a name in a scope. -/
def latest? (log : List Write) (name : String) (id : ScopeId) : Option Value :=
  ((log.filter fun e => e.binds id name).getLast?).map Write.value

/-- What a request writes if it succeeds: into the scope that is current in its table. -/
def Request.write? (d : Tables) : Request → Option Write
  | .define i name value => (d.tables[i]?.bind Table.current).map fun c => ⟨c, name, value, true⟩
  | .update i name value => (d.tables[i]?.bind Table.current).map fun c => ⟨c, name, value, false⟩
  | _ => none

/-- All writes of a run, in their order; a request that fails writes nothing. -/
def Tables.history : Tables → List Request → List Write
  | _, [] => []
  | d, r :: rs =>
    match d.perform r with
    | .ok (_, d') => (r.write? d).toList ++ history d' rs
    | .error _ => history d rs

section Histories

variable {log : List Write} {name : String} {id : ScopeId}

/-- One more write is the latest one of its name in its scope, and of no other. -/
theorem latest?_append (log : List Write) (e : Write) (name : String) (id : ScopeId) :
    latest? (log ++ [e]) name id =
      if e.binds id name then some e.value else latest? log name id := by
  rw [latest?, List.filter_append]
  by_cases h : e.binds id name = true
  · simp [h]
  · simp [h, latest?]

theorem wasDefined_append (log : List Write) (e : Write) (name : String) (id : ScopeId) :
    wasDefined (log ++ [e]) name id =
      (wasDefined log name id || (e.isDefinition && e.binds id name)) := by
  simp [wasDefined]

theorem binds_iff {e : Write} : e.binds id name = true ↔ e.scope = id ∧ e.name = name := by
  simp [Write.binds]

/-- Nothing is written for a scope that no write is about. -/
theorem latest?_eq_none_of_unmade (h : ∀ e ∈ log, e.scope ≠ id) : latest? log name id = none := by
  have hfilter : (log.filter fun e => e.binds id name) = [] := by
    rw [List.filter_eq_nil_iff]
    intro e he hbinds
    exact h e he (binds_iff.mp hbinds).1
  rw [latest?, hfilter]
  rfl

end Histories

/-! ## Scopes of a world -/

section Worlds

variable {w : World} {id c : ScopeId} {s : Scope}

theorem lookup_put (name value n : Value) (bindings : List (Value × Value)) :
    (put name value bindings).lookup n = if n = name then some value else bindings.lookup n := by
  induction bindings with
  | nil =>
    by_cases h : n = name
    · simp [put, h]
    · simp [put, h, List.lookup_cons, beq_false_of_ne h]
  | cons b rest ih =>
    obtain ⟨k, v⟩ := b
    rw [put]
    by_cases hk : k = name
    · subst hk
      by_cases h : n = k
      · simp [h]
      · simp [h, List.lookup_cons, beq_false_of_ne h]
    · rw [if_neg hk, List.lookup_cons, List.lookup_cons, ih]
      by_cases h : n = k
      · subst h
        simp [hk]
      · simp [beq_false_of_ne h]

/-- A scope that exists is one of those that were made. -/
theorem lt_of_get? (h : w.get? id = some s) : id < w.scopes.length :=
  (List.getElem?_eq_some_iff.mp h).1

/-- A scope that was made is the youngest one; the others stay. -/
theorem get?_make {name : String} {parent : Option ScopeId}
    (h : (w.make name parent).1.get? id = some s) :
    w.get? id = some s ∨
      id = w.scopes.length ∧ s = ⟨name, parent <|> w.baseDefault, []⟩ := by
  change (w.scopes ++ [⟨name, parent <|> w.baseDefault, []⟩])[id]? = some s at h
  rcases Nat.lt_or_ge id w.scopes.length with hlt | hge
  · rw [List.getElem?_append_left hlt] at h
    exact .inl h
  · rw [List.getElem?_append_right hge, List.getElem?_singleton] at h
    split at h
    · next hzero =>
      exact .inr ⟨Nat.le_antisymm (Nat.le_of_sub_eq_zero hzero) hge, (Option.some.inj h).symm⟩
    · cases h

/-- Making a scope leaves those that are there. -/
theorem get?_make_of_lt (hid : id < w.scopes.length) (name : String) (parent : Option ScopeId) :
    (w.make name parent).1.get? id = w.get? id :=
  List.getElem?_append_left hid

theorem get?_make_self (w : World) (name : String) (parent : Option ScopeId) :
    (w.make name parent).1.get? w.scopes.length =
      some ⟨name, parent <|> w.baseDefault, []⟩ := by
  change (w.scopes ++ [_])[w.scopes.length]? = _
  rw [List.getElem?_append_right (Nat.le_refl _), Nat.sub_self]
  rfl

theorem get?_bind_eq (w : World) (c : ScopeId) (name value : Value) (id : ScopeId) :
    (w.bind c name value).get? id = (w.get? id).map fun s =>
      if c = id then { s with bindings := put name value s.bindings } else s :=
  List.getElem?_modify ..

/-- Binding a name in a scope changes the bindings of that scope alone. -/
theorem get?_bind {name value : Value} (h : (w.bind c name value).get? id = some s) :
    ∃ s', w.get? id = some s' ∧ s.parent = s'.parent ∧
      s.bindings = if id = c then put name value s'.bindings else s'.bindings := by
  change (w.scopes.modify c fun s => { s with bindings := put name value s.bindings })[id]? = some s
    at h
  rw [List.getElem?_modify] at h
  obtain ⟨s', hs', hs⟩ := Option.map_eq_some_iff.mp h
  refine ⟨s', hs', ?_⟩
  by_cases hid : c = id
  · subst hid
    rw [if_pos rfl] at hs
    rw [← hs, if_pos rfl]
    exact ⟨rfl, rfl⟩
  · rw [if_neg hid] at hs
    rw [← hs, if_neg (Ne.symm hid)]
    exact ⟨rfl, rfl⟩

theorem length_make (w : World) (name : String) (parent : Option ScopeId) :
    (w.make name parent).1.scopes.length = w.scopes.length + 1 :=
  List.length_append

theorem length_bind (w : World) (c : ScopeId) (name value : Value) :
    (w.bind c name value).scopes.length = w.scopes.length :=
  List.length_modify ..

theorem scopes_setDefault (w : World) (family : Family) (id : Option ScopeId) :
    (w.setDefault family id).scopes = w.scopes := by
  cases family <;> rfl

theorem get?_setDefault (w : World) (family : Family) (parent : Option ScopeId) (id : ScopeId) :
    (w.setDefault family parent).get? id = w.get? id := by
  rw [World.get?, World.get?, scopes_setDefault]

end Worlds

/-! ## The way to the outermost scope -/

/-- The scopes from a given one outwards, to one that has no parent. -/
inductive Chain (w : World) : Option ScopeId → List ScopeId → Prop
  | outermost : Chain w none []
  | step {id : ScopeId} {s : Scope} {ids : List ScopeId} (hs : w.get? id = some s)
      (hrest : Chain w s.parent ids) : Chain w (some id) (id :: ids)

/-- The parent of a scope is older than the scope. -/
def World.ParentsOlder (w : World) : Prop :=
  ∀ id s, w.get? id = some s → ∀ p ∈ s.parent, p < id

section Chains

variable {w : World} {start : Option ScopeId} {ids : List ScopeId}

/-- Where parents are older, the way outwards goes down in numbers, so it ends and never
comes back to a scope. -/
theorem exists_chain (hold : w.ParentsOlder) (id : ScopeId) (hid : id < w.scopes.length) :
    ∃ ids, Chain w (some id) ids ∧ ids.Nodup ∧ ids.length ≤ id + 1 ∧ ∀ j ∈ ids, j ≤ id := by
  induction id using Nat.strongRecOn with
  | ind id ih =>
    obtain ⟨s, hs⟩ : ∃ s, w.get? id = some s := ⟨_, List.getElem?_eq_getElem hid⟩
    cases hparent : s.parent with
    | none => exact ⟨[id], .step hs (hparent ▸ .outermost), by simp, by simp, by simp⟩
    | some p =>
      have hp : p < id := hold id s hs p hparent
      obtain ⟨ids, hchain, hnodup, hlength, hle⟩ := ih p hp (Nat.lt_trans hp hid)
      have hout : ∀ j ∈ ids, j < id := fun j hj => Nat.lt_of_le_of_lt (hle j hj) hp
      refine ⟨id :: ids, .step hs (hparent ▸ hchain), ?_, ?_, ?_⟩
      · exact List.nodup_cons.mpr ⟨fun hmem => Nat.lt_irrefl id (hout id hmem), hnodup⟩
      · rw [List.length_cons]
        exact Nat.succ_le_succ (Nat.le_trans hlength hp)
      · intro j hj
        rcases List.mem_cons.mp hj with rfl | hj
        · exact Nat.le_refl j
        · exact Nat.le_of_lt (hout j hj)

/-- Looking a name up asks the scopes on the way outwards one after the other, and needs no
more steps than there are of them. -/
theorem Chain.findFrom_eq (h : Chain w start ids) (name : Value) {steps : Nat}
    (hsteps : ids.length ≤ steps) : w.findFrom name steps start =
      ids.findSome? fun id => (w.get? id).bind fun s => s.bindings.lookup name := by
  induction h generalizing steps with
  | outermost => cases steps <;> rfl
  | @step id s ids hs hrest ih =>
    cases steps with
    | zero => simp at hsteps
    | succ steps =>
      have hrest := ih (Nat.le_of_succ_le_succ hsteps)
      cases hfound : s.bindings.lookup name with
      | none => simp only [World.findFrom, hs, List.findSome?_cons, Option.bind_some, hfound, hrest]
      | some v => simp only [World.findFrom, hs, List.findSome?_cons, Option.bind_some, hfound]

end Chains

/-! ## What the scopes know of the past -/

/-- The scopes hold what was written: a name is bound to the latest value written for it in
the scope, and a name for which anything was written was defined there. -/
structure Traced (w : World) (log : List Write) : Prop where
  older : w.ParentsOlder
  made : ∀ e ∈ log, e.scope < w.scopes.length
  bound : ∀ id s, w.get? id = some s → ∀ name, s.bindings.lookup (.text name) = latest? log name id
  defined : ∀ name id, (latest? log name id).isSome = wasDefined log name id

/-- What the tables and the default parent refer to was made. -/
structure Tables.InRange (d : Tables) : Prop where
  baseDefault : ∀ p ∈ d.world.baseDefault, p < d.world.scopes.length
  current : ∀ t ∈ d.tables, ∀ c ∈ t.current, c < d.world.scopes.length
  previous : ∀ t ∈ d.tables, ∀ c ∈ t.previous, c < d.world.scopes.length

section Traces

variable {w : World} {log : List Write}

theorem traced_empty : Traced World.empty [] where
  older := by
    intro id s h
    cases h
  made := by simp
  bound := by
    intro id s h
    cases h
  defined := fun _ _ => rfl

/-- Only the scopes matter. -/
theorem Traced.of_scopes_eq {w' : World} (h : Traced w log) (hw : w'.scopes = w.scopes) :
    Traced w' log := by
  have hget : ∀ id, w'.get? id = w.get? id := fun id => by rw [World.get?, World.get?, hw]
  refine ⟨fun id s hs => h.older id s (hget id ▸ hs), ?_, ?_, h.defined⟩
  · rw [hw]
    exact h.made
  · exact fun id s hs => h.bound id s (hget id ▸ hs)

/-- Making a scope writes nothing; what it is given as a parent is older. -/
theorem Traced.make (h : Traced w log) (name : String) {parent : Option ScopeId}
    (hparent : ∀ p ∈ parent, p < w.scopes.length)
    (hdefault : ∀ p ∈ w.baseDefault, p < w.scopes.length) :
    Traced (w.make name parent).1 log where
  older := by
    intro id s hs p hp
    rcases get?_make hs with hs | ⟨rfl, rfl⟩
    · exact h.older id s hs p hp
    · cases parent with
      | none => exact hdefault p hp
      | some q => exact hparent p hp
  made := by
    intro e he
    rw [length_make]
    exact Nat.lt_succ_of_lt (h.made e he)
  bound := by
    intro id s hs n
    rcases get?_make hs with hs | ⟨rfl, rfl⟩
    · exact h.bound id s hs n
    · -- the scope is new, and no write was into a scope that was not there
      have hnew : ∀ e ∈ log, e.scope ≠ w.scopes.length := fun e he => Nat.ne_of_lt (h.made e he)
      rw [latest?_eq_none_of_unmade hnew]
      rfl
  defined := h.defined

/-- Binding a name writes it, by a definition or for a name that the scope has. -/
theorem Traced.bind (h : Traced w log) {e : Write} (hmade : e.scope < w.scopes.length)
    (hdefined : e.isDefinition = true ∨ wasDefined log e.name e.scope = true) :
    Traced (w.bind e.scope (.text e.name) e.value) (log ++ [e]) where
  older := by
    intro id s hs p hp
    obtain ⟨s', hs', hparent, -⟩ := get?_bind hs
    exact h.older id s' hs' p (hparent ▸ hp)
  made := by
    intro e' he'
    rw [length_bind]
    rcases List.mem_append.mp he' with he' | he'
    · exact h.made e' he'
    · rw [List.mem_singleton.mp he']
      exact hmade
  bound := by
    intro id s hs n
    obtain ⟨s', hs', -, hbindings⟩ := get?_bind hs
    rw [latest?_append, hbindings, ← h.bound id s' hs' n]
    by_cases hid : id = e.scope
    · rw [if_pos hid, lookup_put]
      by_cases hn : n = e.name
      · rw [if_pos (congrArg Value.text hn), if_pos (binds_iff.mpr ⟨hid.symm, hn.symm⟩)]
      · have hbinds : ¬ e.binds id n = true := fun hb => hn (binds_iff.mp hb).2.symm
        rw [if_neg (fun heq => hn (Value.text.inj heq)), if_neg hbinds]
    · have hbinds : ¬ e.binds id n = true := fun hb => hid (binds_iff.mp hb).1.symm
      rw [if_neg hid, if_neg hbinds]
  defined := by
    intro n id
    rw [latest?_append, wasDefined_append, ← h.defined n id]
    by_cases hbinds : e.binds id n = true
    · obtain ⟨rfl, rfl⟩ := binds_iff.mp hbinds
      rw [if_pos hbinds, hbinds]
      rcases hdefined with hdefinition | hbefore
      · simp [hdefinition]
      · simp [h.defined, hbefore]
    · simp [hbinds]

end Traces

/-! ## Runs -/

section Runs

variable {d d' : Tables} {r : Request} {log : List Write}

theorem Tables.inRange_start : Tables.start.InRange where
  baseDefault := by simp [Tables.start, World.empty]
  current := by simp [Tables.start]
  previous := by simp [Tables.start]

/-- A world that has grown still has all that was referred to. -/
theorem Tables.InRange.setWorld (h : d.InRange) {w : World}
    (hlength : d.world.scopes.length ≤ w.scopes.length)
    (hdefault : ∀ p ∈ w.baseDefault, p < w.scopes.length) : (d.setWorld w).InRange where
  baseDefault := hdefault
  current := fun t ht c hc => Nat.lt_of_lt_of_le (h.current t ht c hc) hlength
  previous := fun t ht c hc => Nat.lt_of_lt_of_le (h.previous t ht c hc) hlength

theorem Tables.InRange.setTable (h : d.InRange) (i : Nat) {t : Table}
    (hcurrent : ∀ c ∈ t.current, c < d.world.scopes.length)
    (hprevious : ∀ c ∈ t.previous, c < d.world.scopes.length) : (d.setTable i t).InRange where
  baseDefault := h.baseDefault
  current := by
    intro t' ht'
    rcases List.mem_or_eq_of_mem_set ht' with ht' | rfl
    · exact h.current t' ht'
    · exact hcurrent
  previous := by
    intro t' ht'
    rcases List.mem_or_eq_of_mem_set ht' with ht' | rfl
    · exact h.previous t' ht'
    · exact hprevious

theorem baseDefault_setDefault {w : World} {family : Family} {id p : ScopeId}
    (hp : p ∈ (w.setDefault family (some id)).baseDefault) : p = id ∨ p ∈ w.baseDefault := by
  cases family with
  | plain => exact .inr hp
  | base => exact .inl (Option.some.inj hp).symm

/-- The scope that was added is current, and the one that was current stands behind it; or
the table goes on as before. -/
theorem add_current (t : Table) (w : World) (name : String) (parent : Option ScopeId)
    (change : Bool) :
    (t.add w name parent change).1.current = some w.scopes.length ∧
        (t.add w name parent change).1.previous = t.current ∨
      (t.add w name parent change).1.current = t.current ∧
        (t.add w name parent change).1.previous = t.previous := by
  rw [Table.add]
  dsimp only
  split
  · exact .inl ⟨rfl, rfl⟩
  · exact .inr ⟨rfl, rfl⟩

/-- **One request.** It keeps all references to scopes within those that were made. -/
theorem Tables.InRange.step (h : d.InRange) (he : d.Effect r d') : d'.InRange := by
  cases he with
  | create family =>
    have hlength : ((d.world.make "root" none).1.setDefault family
        (some d.world.scopes.length)).scopes.length = d.world.scopes.length + 1 := by
      rw [scopes_setDefault, length_make]
    have hgrown := h.setWorld (w := (d.world.make "root" none).1.setDefault family
      (some d.world.scopes.length)) (by omega) (by
        intro p hp
        rw [hlength]
        rcases baseDefault_setDefault hp with rfl | hp
        · exact Nat.lt_succ_self _
        · exact Nat.lt_succ_of_lt (h.baseDefault p hp))
    have hroot : ∀ c ∈ some d.world.scopes.length, c < d.world.scopes.length + 1 := by simp
    refine ⟨hgrown.baseDefault, ?_, ?_⟩
    · intro t ht
      rcases List.mem_append.mp ht with ht | ht
      · exact hgrown.current t ht
      · rw [List.mem_singleton.mp ht, hlength]
        exact hroot
    · intro t ht
      rcases List.mem_append.mp ht with ht | ht
      · exact hgrown.previous t ht
      · rw [List.mem_singleton.mp ht]
        simp
  | @add i t name parent change ht hparent =>
    have hmem := List.mem_of_getElem? ht
    have hgrown : (d.setWorld (d.world.make name parent).1).InRange := by
      apply h.setWorld
      · rw [length_make]
        exact Nat.le_succ _
      · intro p hp
        rw [length_make]
        exact Nat.lt_succ_of_lt (h.baseDefault p hp)
    have hnew : ∀ c ∈ some d.world.scopes.length,
        c < (d.world.make name parent).1.scopes.length := by simp [length_make]
    rcases add_current t d.world name parent change with
      ⟨hcurrent, hprevious⟩ | ⟨hcurrent, hprevious⟩
    · exact hgrown.setTable i (hcurrent ▸ hnew) (hprevious ▸ hgrown.current t hmem)
    · exact hgrown.setTable i (hcurrent ▸ hgrown.current t hmem)
        (hprevious ▸ hgrown.previous t hmem)
  | @destroy i t id ht hlive =>
    -- the current scope is taken from `previous`, whichever scope was destroyed
    exact h.setTable i (h.previous t (List.mem_of_getElem? ht)) (by simp)
  | @setDefault i t id ht hid =>
    apply h.setWorld
    · exact Nat.le_of_eq (by rw [scopes_setDefault])
    · intro p hp
      rw [scopes_setDefault]
      rcases baseDefault_setDefault hp with rfl | hp
      · exact hid
      · exact h.baseDefault p hp
  | @define i t c name value ht hcurrent =>
    apply h.setWorld
    · exact Nat.le_of_eq (by rw [length_bind])
    · rw [length_bind]
      exact h.baseDefault
  | @update i t c s name value ht hcurrent hs hbound =>
    apply h.setWorld
    · exact Nat.le_of_eq (by rw [length_bind])
    · rw [length_bind]
      exact h.baseDefault
  | lookup i name => exact h

/-- **One request.** The scopes hold what was written before it, and what it writes. -/
theorem Traced.step (h : Traced d.world log) (hrange : d.InRange) (he : d.Effect r d') :
    Traced d'.world (log ++ (r.write? d).toList) := by
  cases he with
  | create family =>
    have hmake : Traced (d.world.make "root" none).1 log :=
      h.make "root" (by simp) hrange.baseDefault
    simpa [Request.write?] using hmake.of_scopes_eq (scopes_setDefault _ family _)
  | add name parent change ht hparent =>
    simpa [Request.write?] using h.make name hparent hrange.baseDefault
  | destroy ht hlive => simpa [Request.write?] using h
  | setDefault ht hid =>
    simpa [Request.write?] using h.of_scopes_eq (scopes_setDefault d.world _ _)
  | @define i t c name value ht hcurrent =>
    have hc : c < d.world.scopes.length :=
      hrange.current t (List.mem_of_getElem? ht) c hcurrent
    rw [Request.write?, ht, Option.bind_some, hcurrent]
    exact h.bind (e := ⟨c, name, value, true⟩) hc (.inl rfl)
  | @update i t c s name value ht hcurrent hs hbound =>
    -- an update succeeds only on a name that is bound, and such a name was defined
    have hbefore : wasDefined log name c = true := by
      rw [← h.defined, ← h.bound c s hs]
      exact hbound
    rw [Request.write?, ht, Option.bind_some, hcurrent]
    exact h.bind (e := ⟨c, name, value, false⟩) (lt_of_get? hs) (.inr hbefore)
  | lookup i name => simpa [Request.write?] using h

/-- **A run.** The scopes hold what all its requests wrote. -/
theorem traced_run (rs : List Request) (h : Traced d.world log) (hrange : d.InRange) :
    Traced (d.run rs).world (log ++ d.history rs) ∧ (d.run rs).InRange := by
  induction rs generalizing d log with
  | nil => simpa [Tables.run, Tables.history] using And.intro h hrange
  | cons r rs ih =>
    rw [Tables.run, Tables.after, Tables.history]
    cases hperform : d.perform r with
    | error e => exact ih h hrange
    | ok result =>
      obtain ⟨a, d'⟩ := result
      have heffect := Tables.effect_of_perform hperform
      have hrest := ih (h.step hrange heffect) (hrange.step heffect)
      simpa only [List.append_assoc] using hrest

end Runs

/-! ## Looking names up -/

section Lookups

variable {w : World} {log : List Write} {ids : List ScopeId}

/-- What the scopes on a way outwards hold for a name is the latest value written for it in
the first of them where it was defined. -/
theorem Traced.findSome?_eq (h : Traced w log) (name : String) {start : Option ScopeId}
    (hchain : Chain w start ids) :
    (ids.findSome? fun id => (w.get? id).bind fun s => s.bindings.lookup (.text name)) =
      (ids.find? (wasDefined log name)).bind (latest? log name) := by
  induction hchain with
  | outermost => rfl
  | @step id s ids hs hrest ih =>
    rw [List.findSome?_cons, List.find?_cons, hs, Option.bind_some, h.bound id s hs, ← h.defined]
    cases hlatest : latest? log name id with
    | none => simpa using ih
    | some v => simp [hlatest]

/-- **Looking a name up is lexical scoping.** After any requests to any number of tables, the
way from every scope to the outermost one ends and visits no scope twice, so the search along
it ends. What a table finds for a name is the latest value that was written for it in the
first scope, from the current one outwards, where the name was ever defined; it finds nothing
exactly if there is no such scope. -/
theorem lookup_is_lexical (rs : List Request) :
    (∀ id < (Tables.start.run rs).world.scopes.length,
      ∃ ids, Chain (Tables.start.run rs).world (some id) ids ∧ ids.Nodup) ∧
    ∀ t ∈ (Tables.start.run rs).tables, ∃ ids,
      Chain (Tables.start.run rs).world t.current ids ∧ ids.Nodup ∧ ∀ name : String,
        (∀ steps ≥ ids.length, (Tables.start.run rs).world.findFrom (.text name) steps t.current =
          (Tables.start.run rs).world.find? (.text name) t.current) ∧
        match ids.find? (wasDefined (Tables.start.history rs) name) with
        | some id => ∃ v, latest? (Tables.start.history rs) name id = some v ∧
            t.lookup (Tables.start.run rs).world name = .ok v
        | none => t.lookup (Tables.start.run rs).world name = .error (.undefinedName name) := by
  obtain ⟨htraced, hrange⟩ := traced_run rs traced_empty Tables.inRange_start
  rw [List.nil_append] at htraced
  refine ⟨?_, ?_⟩
  · intro id hid
    obtain ⟨ids, hchain, hnodup, -⟩ := exists_chain htraced.older id hid
    exact ⟨ids, hchain, hnodup⟩
  · intro t ht
    obtain ⟨ids, hchain, hnodup, hlength⟩ : ∃ ids, Chain (Tables.start.run rs).world t.current ids ∧
        ids.Nodup ∧ ids.length ≤ (Tables.start.run rs).world.scopes.length + 1 := by
      cases hcurrent : t.current with
      | none => exact ⟨[], .outermost, by simp, by simp⟩
      | some c =>
        have hc := hrange.current t ht c hcurrent
        obtain ⟨ids, hchain, hnodup, hlength, -⟩ := exists_chain htraced.older c hc
        exact ⟨ids, hchain, hnodup, Nat.le_trans hlength (Nat.succ_le_succ (Nat.le_of_lt hc))⟩
    refine ⟨ids, hchain, hnodup, fun name => ⟨?_, ?_⟩⟩
    · intro steps hsteps
      rw [World.find?, hchain.findFrom_eq _ hsteps, hchain.findFrom_eq _ hlength]
    · have hfind : (Tables.start.run rs).world.find? (.text name) t.current =
          (ids.find? (wasDefined (Tables.start.history rs) name)).bind
            (latest? (Tables.start.history rs) name) := by
        rw [World.find?, hchain.findFrom_eq _ hlength, htraced.findSome?_eq name hchain]
      rw [Table.lookup, hfind]
      cases hfirst : ids.find? (wasDefined (Tables.start.history rs) name) with
      | none => rfl
      | some id =>
        have hsome : (latest? (Tables.start.history rs) name id).isSome = true := by
          rw [htraced.defined]
          exact List.find?_some hfirst
        obtain ⟨v, hv⟩ := Option.isSome_iff_exists.mp hsome
        refine ⟨v, hv, ?_⟩
        rw [Option.bind_some, hv]

-- A destroyed scope is still the parent of a scope of another table.
example : ((Tables.start.run [.create .base, .define 0 "x" (.int 1), .add 0 "inner" none true,
      .define 0 "x" (.int 2), .destroy 0 1, .create .plain, .add 1 "child" (some 1) true]).perform
      (.lookup 1 "x")).map Prod.fst = .ok (.value (.int 2)) := by
  rfl

end Lookups

end ProgramTree.Scope
