/-
Any number of tables at once.

Scopes are shared. A scope of one table may be the parent of a scope of another one, a
destroyed scope stays the parent of others, and the default parents belong to families
and not to tables. What a table finds therefore depends on all requests to all tables,
and the state that requests work on is the world with every table ever made.

Requests are performed by the operations of `Table`, and a request that fails leaves
everything as it was. A request that names a table or a scope that was never made is
one that nobody can ask; it fails here, so every list of requests is a run.
-/
import ProgramTree.Scope

namespace ProgramTree.Scope

/-- All tables made so far, in the order of making, and the scopes of them all. -/
structure Tables where
  world : World
  tables : List Table

/-- What can be asked. A table goes by its number in the order of making. -/
inductive Request
  | create (family : Family)
  | add (table : Nat) (name : String) (parent : Option ScopeId) (change : Bool)
  | destroy (table : Nat) (scope : ScopeId)
  | setDefault (table : Nat) (scope : ScopeId)
  | define (table : Nat) (name : String) (value : Value)
  | update (table : Nat) (name : String) (value : Value)
  | lookup (table : Nat) (name : String)

/-- What a request gives back. -/
inductive Response
  | nothing
  | scope (id : ScopeId)
  | value (v : Value)
deriving DecidableEq, Repr

namespace Tables

/-! ## Requests -/

/-- No tables, and a world without scopes. -/
def start : Tables :=
  ⟨World.empty, []⟩

/-- Goes on with a table, if it was ever made. -/
def withTable {α : Type} (d : Tables) (i : Nat) (f : Table → Except Fault α) : Except Fault α :=
  match d.tables[i]? with
  | some t => f t
  | none => .error (.unknownLabel "table")

/-- Goes on if a scope was ever made. -/
def withScope {α : Type} (d : Tables) (id : ScopeId) (x : Except Fault α) : Except Fault α :=
  if id < d.world.scopes.length then x else .error (.unknownLabel "scope")

/-- The tables with another one in the place of one of them. -/
def setTable (d : Tables) (i : Nat) (t : Table) : Tables :=
  { d with tables := d.tables.set i t }

/-- The tables with another world. -/
def setWorld (d : Tables) (w : World) : Tables :=
  { d with world := w }

@[simp] theorem world_setTable (d : Tables) (i : Nat) (t : Table) :
    (d.setTable i t).world = d.world :=
  rfl

@[simp] theorem tables_setTable (d : Tables) (i : Nat) (t : Table) :
    (d.setTable i t).tables = d.tables.set i t :=
  rfl

@[simp] theorem world_setWorld (d : Tables) (w : World) : (d.setWorld w).world = w :=
  rfl

@[simp] theorem tables_setWorld (d : Tables) (w : World) : (d.setWorld w).tables = d.tables :=
  rfl

/-- Adds a scope to a table. -/
def addTo (d : Tables) (i : Nat) (name : String) (parent : Option ScopeId) (change : Bool)
    (t : Table) : Response × Tables :=
  match t.add d.world name parent change with
  | (t, w, id) => (.scope id, (d.setWorld w).setTable i t)

/-- Performs a request: what it gives back, and the tables after it. -/
def perform (d : Tables) : Request → Except Fault (Response × Tables)
  | .create family =>
    match Table.create d.world family with
    | (t, w) => .ok (.nothing, ⟨w, d.tables ++ [t]⟩)
  | .add i name none change => d.withTable i fun t => .ok (d.addTo i name none change t)
  | .add i name (some p) change =>
    d.withTable i fun t => d.withScope p (.ok (d.addTo i name (some p) change t))
  | .destroy i id => d.withTable i fun t =>
    (t.destroy (some id)).map fun t => (.nothing, d.setTable i t)
  | .setDefault i id => d.withTable i fun t =>
    d.withScope id (.ok (.nothing, d.setWorld (d.world.setDefault t.family (some id))))
  | .define i name value => d.withTable i fun t =>
    (t.define d.world (.text name) value).map fun w => (.nothing, d.setWorld w)
  | .update i name value => d.withTable i fun t =>
    (t.update d.world (.text name) value).map fun w => (.nothing, d.setWorld w)
  | .lookup i name => d.withTable i fun t =>
    (t.lookup d.world name).map fun v => (.value v, d)

/-- The tables after a request. -/
def after (d : Tables) (r : Request) : Tables :=
  match d.perform r with
  | .ok (_, d) => d
  | .error _ => d

/-- The tables after several requests. -/
def run : Tables → List Request → Tables
  | d, [] => d
  | d, r :: rs => run (d.after r) rs

/-! ## What a request changes -/

variable {d d' : Tables} {r : Request}

/-- All that a request can do when it succeeds. A scope that is made is the youngest of
all, and what it is given as a parent was there before it; a name is bound in the
current scope of a table. -/
inductive Effect (d : Tables) : Request → Tables → Prop
  | create (family : Family) : Effect d (.create family)
      ⟨(d.world.make "root" none).1.setDefault family (some d.world.scopes.length),
        d.tables ++ [⟨family, [d.world.scopes.length], some d.world.scopes.length, none⟩]⟩
  | add {i : Nat} {t : Table} (name : String) (parent : Option ScopeId) (change : Bool)
      (ht : d.tables[i]? = some t) (hparent : ∀ p ∈ parent, p < d.world.scopes.length) :
      Effect d (.add i name parent change)
        ((d.setWorld (d.world.make name parent).1).setTable i (t.add d.world name parent change).1)
  | destroy {i : Nat} {t : Table} {id : ScopeId} (ht : d.tables[i]? = some t)
      (hlive : id ∈ t.live) : Effect d (.destroy i id) (d.setTable i
        { t with live := t.live.erase id, current := t.previous, previous := none })
  | setDefault {i : Nat} {t : Table} {id : ScopeId} (ht : d.tables[i]? = some t)
      (hid : id < d.world.scopes.length) :
      Effect d (.setDefault i id) (d.setWorld (d.world.setDefault t.family (some id)))
  | define {i : Nat} {t : Table} {c : ScopeId} (name : String) (value : Value)
      (ht : d.tables[i]? = some t) (hcurrent : t.current = some c) :
      Effect d (.define i name value) (d.setWorld (d.world.bind c (.text name) value))
  | update {i : Nat} {t : Table} {c : ScopeId} {s : Scope} (name : String) (value : Value)
      (ht : d.tables[i]? = some t) (hcurrent : t.current = some c) (hs : d.world.get? c = some s)
      (hbound : (s.bindings.lookup (.text name)).isSome = true) :
      Effect d (.update i name value) (d.setWorld (d.world.bind c (.text name) value))
  | lookup (i : Nat) (name : String) : Effect d (.lookup i name) d

/-- A request that goes on with a table has found one. -/
theorem withTable_eq_ok {α : Type} {i : Nat} {f : Table → Except Fault α} {a : α} :
    d.withTable i f = .ok a ↔ ∃ t, d.tables[i]? = some t ∧ f t = .ok a := by
  rw [withTable]
  cases d.tables[i]? with
  | none => simp
  | some t => simp

theorem withScope_eq_ok {α : Type} {id : ScopeId} {x : Except Fault α} {a : α} :
    d.withScope id x = .ok a ↔ id < d.world.scopes.length ∧ x = .ok a := by
  rw [withScope]
  by_cases h : id < d.world.scopes.length
  · simp [h]
  · simp [h]

/-- Adding a scope makes it, whatever the table does with it. -/
theorem add_eq (t : Table) (w : World) (name : String) (parent : Option ScopeId) (change : Bool) :
    t.add w name parent change =
      ((t.add w name parent change).1, (w.make name parent).1, w.scopes.length) := by
  rw [Table.add]
  dsimp only
  split
  · rfl
  · rfl

theorem addTo_eq (d : Tables) (i : Nat) (name : String) (parent : Option ScopeId) (change : Bool)
    (t : Table) : d.addTo i name parent change t = (.scope d.world.scopes.length,
      (d.setWorld (d.world.make name parent).1).setTable i
        (t.add d.world name parent change).1) := by
  rw [addTo, add_eq]

theorem map_eq_ok {α β : Type} {f : α → β} {x : Except Fault α} {b : β} :
    x.map f = .ok b ↔ ∃ a, x = .ok a ∧ f a = b := by
  cases x with
  | error e => simp [Except.map]
  | ok a => simp [Except.map]

theorem destroy_eq_ok {t t' : Table} {scope : Option ScopeId} (h : t.destroy scope = .ok t') :
    ∃ id ∈ t.live, scope = some id ∧
      t' = { t with live := t.live.erase id, current := t.previous, previous := none } := by
  cases scope with
  | none => cases h
  | some id =>
    rw [Table.destroy] at h
    by_cases hlive : t.live.contains id = true
    · rw [if_pos hlive] at h
      cases h
      exact ⟨id, List.contains_iff_mem.mp hlive, rfl, rfl⟩
    · rw [if_neg hlive] at h
      cases h

theorem define_eq_ok {t : Table} {w w' : World} {name value : Value}
    (h : t.define w name value = .ok w') :
    ∃ c, t.current = some c ∧ w' = w.bind c name value := by
  rw [Table.define] at h
  cases hcurrent : t.current with
  | none =>
    rw [hcurrent] at h
    cases h
  | some c =>
    rw [hcurrent] at h
    cases h
    exact ⟨c, rfl, rfl⟩

theorem update_eq_ok {t : Table} {w w' : World} {name value : Value}
    (h : t.update w name value = .ok w') : ∃ c s, t.current = some c ∧ w.get? c = some s ∧
      (s.bindings.lookup name).isSome = true ∧ w' = w.bind c name value := by
  rw [Table.update] at h
  cases hcurrent : t.current with
  | none =>
    rw [hcurrent] at h
    cases h
  | some c =>
    rw [hcurrent] at h
    cases hs : w.get? c with
    | none =>
      simp only [hs, Option.bind_none, Option.isSome_none, Bool.false_eq_true, if_false] at h
      cases h
    | some s =>
      by_cases hbound : (s.bindings.lookup name).isSome = true
      · simp only [hs, Option.bind_some, hbound, if_true] at h
        cases h
        exact ⟨c, s, rfl, hs, hbound, rfl⟩
      · simp only [hs, Option.bind_some, hbound] at h
        cases h

/-- A request that succeeds has an effect. -/
theorem effect_of_perform {a : Response} (h : d.perform r = .ok (a, d')) : Effect d r d' := by
  cases r with
  | create family =>
    cases h
    exact .create family
  | add i name parent change =>
    have hadd : ∃ t, d.tables[i]? = some t ∧ (∀ p ∈ parent, p < d.world.scopes.length) ∧
        d.addTo i name parent change t = (a, d') := by
      cases parent with
      | none =>
        obtain ⟨t, ht, hadd⟩ := withTable_eq_ok.mp h
        exact ⟨t, ht, by simp, Except.ok.inj hadd⟩
      | some p =>
        obtain ⟨t, ht, hadd⟩ := withTable_eq_ok.mp h
        obtain ⟨hp, hadd⟩ := withScope_eq_ok.mp hadd
        exact ⟨t, ht, by simpa using hp, Except.ok.inj hadd⟩
    obtain ⟨t, ht, hparent, hadd⟩ := hadd
    rw [addTo_eq] at hadd
    cases hadd
    exact .add name parent change ht hparent
  | destroy i id =>
    obtain ⟨t, ht, hmap⟩ := withTable_eq_ok.mp h
    obtain ⟨t', hdestroy, ⟨⟩⟩ := map_eq_ok.mp hmap
    obtain ⟨_, hlive, ⟨⟩, rfl⟩ := destroy_eq_ok hdestroy
    exact .destroy ht hlive
  | setDefault i id =>
    obtain ⟨t, ht, hset⟩ := withTable_eq_ok.mp h
    obtain ⟨hid, hset⟩ := withScope_eq_ok.mp hset
    cases hset
    exact .setDefault ht hid
  | define i name value =>
    obtain ⟨t, ht, hmap⟩ := withTable_eq_ok.mp h
    obtain ⟨w, hdefine, ⟨⟩⟩ := map_eq_ok.mp hmap
    obtain ⟨c, hcurrent, rfl⟩ := define_eq_ok hdefine
    exact .define name value ht hcurrent
  | update i name value =>
    obtain ⟨t, ht, hmap⟩ := withTable_eq_ok.mp h
    obtain ⟨w, hupdate, ⟨⟩⟩ := map_eq_ok.mp hmap
    obtain ⟨c, s, hcurrent, hs, hbound, rfl⟩ := update_eq_ok hupdate
    exact .update name value ht hcurrent hs hbound
  | lookup i name =>
    obtain ⟨t, ht, hmap⟩ := withTable_eq_ok.mp h
    obtain ⟨v, -, ⟨⟩⟩ := map_eq_ok.mp hmap
    exact .lookup i name

end Tables

end ProgramTree.Scope
