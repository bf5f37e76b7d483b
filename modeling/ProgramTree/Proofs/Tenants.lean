/-
Tables by name, and what an operation on one of them touches.

All tables keep their scopes in one world. Here a table goes by a name, and a scope by the
table that made it and its place among the scopes which that table made. Both mean the same in
whatever order the operations on several tables come, where the number of a scope in the world
does not.

An operation on a table makes new scopes and changes scopes of that table, and nothing else
that another table reads (`Tenant.Moved`). So tables never come to share a scope
(`Tenancy.Separate`).
-/
import Mathlib.Logic.Function.Basic
import ProgramTree.Proofs.Live

namespace ProgramTree.Scope

/-! ## Tables by name -/

/-- A scope by the table that made it and its place among the scopes made there. The root has
the place 0. -/
structure Handle where
  table : Nat
  place : Nat
deriving DecidableEq, Repr

/-- What can be done with a table. The parent of a new scope is a scope of the same table. -/
inductive Operation
  | create
  | add (name : String) (parent : Option Nat) (change : Bool)
  | destroy (scope : Handle)
  | setDefault (scope : Handle)
  | define (name : String) (value : Value)
  | update (name : String) (value : Value)
  | lookup (name : String)
  | first
  | last

/-- A table with all scopes that it ever made, in the order of making. -/
structure Tenant where
  table : Table
  made : List ScopeId

namespace Tenant

/-- A table before it has a root. -/
def blank : Tenant :=
  ⟨⟨.plain, [], none, none⟩, []⟩

/-- The place of a scope among those that the table made. -/
def place (m : Tenant) (id : ScopeId) : Nat :=
  m.made.idxOf id

/-- Adds a scope. -/
def grow (m : Tenant) (w : World) (name : String) (parent : Option ScopeId) (change : Bool) :
    Response × World × Tenant :=
  match m.table.add w name parent change with
  | (t, w, id) => (.scope m.made.length, w, ⟨t, m.made ++ [id]⟩)

/-- Does an operation, given what handles stand for. A scope in an answer goes by its place.
A handle that stands for nothing stands for no scope of this table, and making a table that is
there keeps it. -/
def act (m : Tenant) (w : World) (scope? : Handle → Option ScopeId) :
    Operation → Except Fault (Response × World × Tenant)
  | .create => .ok (.nothing, w, m)
  | .add name none change => .ok (m.grow w name none change)
  | .add name (some place) change =>
    match m.made[place]? with
    | some p => .ok (m.grow w name (some p) change)
    | none => .error (.unknownLabel "scope")
  | .destroy h => (m.table.destroy (scope? h)).map fun t => (.nothing, w, { m with table := t })
  | .setDefault h => .ok (.nothing, w.setDefault m.table.family (scope? h), m)
  | .define name value => (m.table.define w (.text name) value).map fun w => (.nothing, w, m)
  | .update name value => (m.table.update w (.text name) value).map fun w => (.nothing, w, m)
  | .lookup name => (m.table.lookup w name).map fun v => (.value v, w, m)
  | .first => m.table.first.map fun id => (.scope (m.place id), w, m)
  | .last => m.table.last.map fun id => (.scope (m.place id), w, m)

/-- Does an operation on a table that is not there: it can only be made. -/
def begin (w : World) : Operation → Except Fault (Response × World × Tenant)
  | .create =>
    match Table.create w .plain with
    | (t, w) => .ok (.nothing, w, ⟨t, t.live⟩)
  | _ => .error (.unknownLabel "table")

end Tenant

/-- A world with the tables in it, all of the plain family. -/
structure Tenancy where
  world : World
  tenants : Nat → Option Tenant

namespace Tenancy

/-- No tables, and a world without scopes. -/
def start : Tenancy :=
  ⟨World.empty, fun _ => none⟩

/-- What a handle stands for. -/
def scope? (s : Tenancy) (h : Handle) : Option ScopeId :=
  (s.tenants h.table).bind fun m => m.made[h.place]?

/-- Another world, and another table under a name. -/
def put (s : Tenancy) (i : Nat) (w : World) (m : Tenant) : Tenancy :=
  ⟨w, Function.update s.tenants i (some m)⟩

/-- What becomes of an operation on the table of some name: the answer, the world and the
table after it. -/
def outcome (s : Tenancy) (i : Nat) (op : Operation) : Except Fault (Response × World × Tenant) :=
  match s.tenants i with
  | some m => m.act s.world s.scope? op
  | none => Tenant.begin s.world op

/-- What an operation answers. -/
def answer (s : Tenancy) (e : Nat × Operation) : Except Fault Response :=
  (s.outcome e.1 e.2).map Prod.fst

/-- The tables after an operation; one that fails changes nothing. -/
def after (s : Tenancy) (e : Nat × Operation) : Tenancy :=
  match s.outcome e.1 e.2 with
  | .ok (_, w, m) => s.put e.1 w m
  | .error _ => s

/-- The tables after several operations. -/
def run : Tenancy → List (Nat × Operation) → Tenancy
  | s, [] => s
  | s, e :: es => run (s.after e) es

/-- The answers to several operations, with the names of the tables. -/
def answers : Tenancy → List (Nat × Operation) → List (Nat × Except Fault Response)
  | _, [] => []
  | s, e :: es => (e.1, s.answer e) :: answers (s.after e) es

end Tenancy

/-- What there is to see of a table: the table itself and every scope it made, with name,
parent and bindings. Scopes go by their places. -/
structure TableView where
  table : Table
  scopes : List (Option Scope)

/-- The view of a table. -/
def Tenant.view (m : Tenant) (w : World) : TableView where
  table := { m.table with
    live := m.table.live.map m.place
    current := m.table.current.map m.place
    previous := m.table.previous.map m.place }
  scopes := m.made.map fun id =>
    (w.get? id).map fun s => { s with parent := s.parent.map m.place }

/-- The view of the table of some name, if it was made. -/
def Tenancy.view? (s : Tenancy) (i : Nat) : Option TableView :=
  (s.tenants i).map fun m => m.view s.world

/-! ## What an operation touches -/

/-- A table of the plain family whose scopes are among the first `n` of the world, and which
points to scopes of its own only. -/
structure Tenant.Own (m : Tenant) (n : Nat) : Prop where
  made_lt : ∀ id ∈ m.made, id < n
  live : ∀ id ∈ m.table.live, id ∈ m.made
  current : ∀ id ∈ m.table.current, id ∈ m.made
  previous : ∀ id ∈ m.table.previous, id ∈ m.made
  plain : m.table.family = .plain

/-- What an operation on a table leaves: the table owns what it points to, its scopes are those
before and new ones, and nothing else changes that another table reads. -/
structure Tenant.Moved (w : World) (m : Tenant) (w' : World) (m' : Tenant) : Prop where
  own : m'.Own w'.scopes.length
  length_le : w.scopes.length ≤ w'.scopes.length
  made : ∀ id ∈ m'.made, id ∈ m.made ∨ w.scopes.length ≤ id
  elsewhere : ∀ id < w.scopes.length, id ∉ m.made → w'.get? id = w.get? id
  baseDefault : w'.baseDefault = w.baseDefault

section Touching

variable {w w' : World} {m m' : Tenant} {n : Nat}

theorem Tenant.own_blank (n : Nat) : Tenant.blank.Own n := by
  constructor <;> simp [Tenant.blank]

theorem Tenant.Own.mono (h : m.Own n) {n' : Nat} (hle : n ≤ n') : m.Own n' :=
  { h with made_lt := fun id hid => Nat.lt_of_lt_of_le (h.made_lt id hid) hle }

theorem Tenant.Own.grow (h : m.Own w.scopes.length) (name : String) (parent : Option ScopeId)
    (change : Bool) :
    (⟨(m.table.add w name parent change).1, m.made ++ [w.scopes.length]⟩ : Tenant).Own
      (w.scopes.length + 1) := by
  have hkept : ∀ id ∈ m.made, id ∈ m.made ++ [w.scopes.length] :=
    fun id hid => List.mem_append_left _ hid
  have hnew : w.scopes.length ∈ m.made ++ [w.scopes.length] :=
    List.mem_append_right _ (List.mem_singleton_self _)
  constructor
  case made_lt =>
    intro id hid
    rcases List.mem_append.mp hid with hid | hid
    · exact Nat.lt_succ_of_lt (h.made_lt id hid)
    · exact Nat.lt_succ_of_le (Nat.le_of_eq (List.mem_singleton.mp hid))
  case live =>
    intro id hid
    rw [live_add] at hid
    rcases List.mem_append.mp hid with hid | hid
    · exact hkept id (h.live id hid)
    · exact List.mem_append_right _ hid
  case current =>
    intro id hid
    rw [current_add] at hid
    split at hid
    · cases hid
      exact hnew
    · exact hkept id (h.current id hid)
  case previous =>
    intro id hid
    rw [previous_add] at hid
    split at hid
    · exact hkept id (h.current id hid)
    · exact hkept id (h.previous id hid)
  case plain => rw [family_add, h.plain]

namespace Tenant.Moved

theorem refl (h : m.Own w.scopes.length) : Moved w m w m :=
  ⟨h, Nat.le_refl _, fun _ hid => .inl hid, fun _ _ _ => rfl, rfl⟩

theorem grow (h : m.Own w.scopes.length) (name : String) (parent : Option ScopeId)
    (change : Bool) : Moved w m (w.make name parent).1
      ⟨(m.table.add w name parent change).1, m.made ++ [w.scopes.length]⟩ where
  own := by
    rw [length_make]
    exact h.grow name parent change
  length_le := by
    rw [length_make]
    exact Nat.le_succ _
  made := by
    intro id hid
    rcases List.mem_append.mp hid with hid | hid
    · exact .inl hid
    · exact .inr (Nat.le_of_eq (List.mem_singleton.mp hid).symm)
  elsewhere := fun id hid _ => get?_make_of_lt hid name parent
  baseDefault := rfl

theorem destroy (h : m.Own w.scopes.length) (id : ScopeId) : Moved w m w
    { m with table := { m.table with
      live := m.table.live.erase id, current := m.table.previous, previous := none } } :=
  { refl h with
    own := ⟨h.made_lt, fun c hc => h.live c (List.mem_of_mem_erase hc), h.previous, by simp,
      h.plain⟩ }

/-- The default parent that a plain table sets is not the one that new scopes take. -/
theorem setDefault (h : m.Own w.scopes.length) (parent : Option ScopeId) :
    Moved w m (w.setDefault m.table.family parent) m := by
  rw [h.plain]
  exact ⟨h, Nat.le_refl _, fun _ hid => .inl hid, fun _ _ _ => rfl, rfl⟩

theorem bind (h : m.Own w.scopes.length) {id : ScopeId} (hid : m.table.current = some id)
    (name value : Value) : Moved w m (w.bind id name value) m where
  own := by
    rw [length_bind]
    exact h
  length_le := Nat.le_of_eq (length_bind w id name value).symm
  made := fun _ hc => .inl hc
  elsewhere := by
    intro c _ hc
    have hne : id ≠ c := by
      rintro rfl
      exact hc (h.current id hid)
    rw [get?_bind_eq]
    simp only [if_neg hne, Option.map_id']
  baseDefault := rfl

theorem trans {w'' : World} {m'' : Tenant} (h : Moved w m w' m') (h' : Moved w' m' w'' m'') :
    Moved w m w'' m'' where
  own := h'.own
  length_le := Nat.le_trans h.length_le h'.length_le
  made := by
    intro id hid
    rcases h'.made id hid with hid | hid
    · exact h.made id hid
    · exact .inr (Nat.le_trans h.length_le hid)
  elsewhere := by
    intro id hid hmade
    have hmade' : id ∉ m'.made := fun hid' =>
      (h.made id hid').elim hmade (Nat.not_le_of_lt hid)
    rw [h'.elsewhere id (Nat.lt_of_lt_of_le hid h.length_le) hmade', h.elsewhere id hid hmade]
  baseDefault := h'.baseDefault.trans h.baseDefault

end Tenant.Moved

theorem grow_eq (m : Tenant) (w : World) (name : String) (parent : Option ScopeId)
    (change : Bool) : m.grow w name parent change = (.scope m.made.length, (w.make name parent).1,
      ⟨(m.table.add w name parent change).1, m.made ++ [w.scopes.length]⟩) := by
  rw [Tenant.grow, Tables.add_eq]

/-- An operation that succeeds moves its table. -/
theorem Tenant.moved_of_act (h : m.Own w.scopes.length) {scope? : Handle → Option ScopeId}
    {op : Operation} {a : Response} (hact : m.act w scope? op = .ok (a, w', m')) :
    Moved w m w' m' := by
  cases op with
  | create =>
    cases hact
    exact .refl h
  | add name parent change =>
    cases parent with
    | none =>
      rw [act, grow_eq] at hact
      cases hact
      exact .grow h name none change
    | some place =>
      rw [act] at hact
      cases hplace : m.made[place]? with
      | none =>
        rw [hplace] at hact
        cases hact
      | some p =>
        rw [hplace] at hact
        simp only [grow_eq] at hact
        cases hact
        exact .grow h name (some p) change
  | destroy scope =>
    obtain ⟨t, hdestroy, ⟨⟩⟩ := Tables.map_eq_ok.mp hact
    obtain ⟨id, -, -, rfl⟩ := Tables.destroy_eq_ok hdestroy
    exact .destroy h id
  | setDefault scope =>
    cases hact
    exact .setDefault h _
  | define name value =>
    obtain ⟨w, hdefine, ⟨⟩⟩ := Tables.map_eq_ok.mp hact
    obtain ⟨c, hcurrent, rfl⟩ := Tables.define_eq_ok hdefine
    exact .bind h hcurrent _ value
  | update name value =>
    obtain ⟨w, hupdate, ⟨⟩⟩ := Tables.map_eq_ok.mp hact
    obtain ⟨c, s, hcurrent, -, -, rfl⟩ := Tables.update_eq_ok hupdate
    exact .bind h hcurrent _ value
  | lookup name =>
    obtain ⟨v, -, ⟨⟩⟩ := Tables.map_eq_ok.mp hact
    exact .refl h
  | first =>
    obtain ⟨id, -, ⟨⟩⟩ := Tables.map_eq_ok.mp hact
    exact .refl h
  | last =>
    obtain ⟨id, -, ⟨⟩⟩ := Tables.map_eq_ok.mp hact
    exact .refl h

end Touching

/-! ## Tables that share a world -/

/-- The table of some name; a blank one if it was not made. -/
def Tenancy.tenant (s : Tenancy) (i : Nat) : Tenant :=
  (s.tenants i).getD .blank

/-- Every table owns its scopes, no two tables own the same, and new scopes take no default
parent. -/
structure Tenancy.Separate (s : Tenancy) : Prop where
  own : ∀ i, (s.tenant i).Own s.world.scopes.length
  apart : ∀ i j, i ≠ j → ∀ id ∈ (s.tenant i).made, id ∉ (s.tenant j).made
  baseDefault : s.world.baseDefault = none

namespace Tenancy

variable {s s' : Tenancy} {i j : Nat} {w : World} {m : Tenant}

theorem tenant_of_eq_some (h : s.tenants i = some m) : s.tenant i = m := by
  rw [tenant, h, Option.getD_some]

theorem tenants_put_self (s : Tenancy) (i : Nat) (w : World) (m : Tenant) :
    (s.put i w m).tenants i = some m :=
  Function.update_self ..

theorem tenant_put_self (s : Tenancy) (i : Nat) (w : World) (m : Tenant) :
    (s.put i w m).tenant i = m :=
  tenant_of_eq_some (tenants_put_self s i w m)

theorem tenants_put_of_ne (hij : i ≠ j) (s : Tenancy) (w : World) (m : Tenant) :
    (s.put j w m).tenants i = s.tenants i :=
  Function.update_of_ne hij ..

theorem tenant_put_of_ne (hij : i ≠ j) (s : Tenancy) (w : World) (m : Tenant) :
    (s.put j w m).tenant i = s.tenant i := by
  rw [tenant, tenants_put_of_ne hij, tenant]

theorem separate_start : start.Separate where
  own := fun _ => Tenant.own_blank _
  apart := fun _ _ _ _ hid => absurd hid List.not_mem_nil
  baseDefault := rfl

/-- An operation on a table moves it, or makes it. -/
theorem moved_of_outcome (hs : s.Separate) {op : Operation} {a : Response}
    (h : s.outcome i op = .ok (a, w, m)) : Tenant.Moved s.world (s.tenant i) w m := by
  cases htenant : s.tenants i with
  | some m₀ =>
    rw [outcome, htenant] at h
    rw [tenant_of_eq_some htenant]
    exact Tenant.moved_of_act (tenant_of_eq_some htenant ▸ hs.own i) h
  | none =>
    rw [outcome, htenant] at h
    cases op with
    | create =>
      cases h
      -- a table that is made is a blank one which grows a root
      have hroot := Tenant.Moved.grow (Tenant.own_blank s.world.scopes.length) "root" none true
      rw [tenant, htenant]
      exact hroot.trans (.setDefault hroot.own _)
    | _ => cases h

theorem Separate.put (hs : s.Separate) (hm : Tenant.Moved s.world (s.tenant i) w m) :
    (s.put i w m).Separate where
  own := by
    intro j
    by_cases hji : j = i
    · subst hji
      rw [tenant_put_self]
      exact hm.own
    · rw [tenant_put_of_ne hji]
      exact (hs.own j).mono hm.length_le
  apart := by
    -- a scope of the table that moved is an old one or a new one, and no other table has either
    have hmoved : ∀ j, j ≠ i → ∀ id ∈ m.made, id ∉ (s.tenant j).made := by
      intro j hji id hid hmade
      rcases hm.made id hid with hid | hid
      · exact hs.apart j i hji id hmade hid
      · exact Nat.not_le_of_lt ((hs.own j).made_lt id hmade) hid
    intro j k hjk id hid hid'
    by_cases hji : j = i
    · subst hji
      rw [tenant_put_self] at hid
      rw [tenant_put_of_ne hjk.symm] at hid'
      exact hmoved k hjk.symm id hid hid'
    · rw [tenant_put_of_ne hji] at hid
      by_cases hki : k = i
      · subst hki
        rw [tenant_put_self] at hid'
        exact hmoved j hji id hid' hid
      · rw [tenant_put_of_ne hki] at hid'
        exact hs.apart j k hjk id hid hid'
  baseDefault := hm.baseDefault.trans hs.baseDefault

theorem Separate.after (hs : s.Separate) (e : Nat × Operation) : (s.after e).Separate := by
  rw [Tenancy.after]
  split
  · exact hs.put (moved_of_outcome hs ‹_›)
  · exact hs

end Tenancy

end ProgramTree.Scope
