/-
Operations on tables, statement by statement.

The operations of `Table` say what a table is like after them, and nothing of the state in
which a failing one stops. Here the same operations are written out as changes made one after
the other: a scope is made, enters the table, becomes current. What was done before a fault
stays done. An operation then either does all that the operation of `Table` says, or fails with
the same fault before its first change (`run_steps`).
-/
import ProgramTree.Proofs.Live

namespace ProgramTree.Scope

/-! ## Changes and faults -/

/-- Changes of tables, one after the other. A fault ends them and leaves those before it. -/
abbrev Steps := ExceptT Fault (StateM Tables)

namespace Steps

/-- The outcome, and the tables after the last change that was made. -/
def runOn {α : Type} (x : Steps α) (d : Tables) : Except Fault α × Tables :=
  x d

/-- An outcome without changes. -/
def ofOutcome {α : Type} : Except Fault α → Steps α
  | .ok a => return a
  | .error e => throw e

/-- A table that was made. -/
def table (i : Nat) : Steps Table := do
  match (← get).tables[i]? with
  | some t => return t
  | none => throw (.unknownLabel "table")

/-- A scope that was made, or none. -/
def known (scope : Option ScopeId) : Steps Unit := do
  match scope with
  | some id =>
    if (← get).world.scopes.length ≤ id then throw (.unknownLabel "scope")
  | none => return ()

/-- Changes a table. -/
def change (i : Nat) (f : Table → Table) : Steps Unit := do
  let t ← table i
  modify fun d => d.setTable i (f t)

/-- Changes the world. -/
def world (f : World → World) : Steps Unit :=
  modify fun d => d.setWorld (f d.world)

/-- The current scope of a table. -/
def current (i : Nat) : Steps ScopeId := do
  match (← table i).current with
  | some c => return c
  | none => throw .noScope

/-! ## Operations -/

/-- Makes a scope, enters it into a table, and makes it current if asked to or if it is alone;
the one that was current stands behind it. -/
def add (i : Nat) (name : String) (parent : Option ScopeId) (switch : Bool) : Steps ScopeId := do
  let id := (← get).world.scopes.length
  world fun w => (w.make name parent).1
  change i fun t => { t with live := t.live ++ [id] }
  if (← table i).live.length = 1 || switch then
    change i fun t => { t with previous := t.current }
    change i fun t => { t with current := some id }
  return id

/-- Makes a table with a root, which becomes the default parent of its family. -/
def create (family : Family) : Steps Unit := do
  let i := (← get).tables.length
  modify fun d => { d with tables := d.tables ++ [⟨family, [], none, none⟩] }
  let root ← add i "root" none true
  world fun w => w.setDefault family (some root)

/-- Takes a scope out of a table; the one before the current one becomes current. -/
def destroy (i : Nat) (id : ScopeId) : Steps Unit := do
  if !(← table i).live.contains id then throw .foreignScope
  change i fun t => { t with live := t.live.erase id }
  change i fun t => { t with current := t.previous }
  change i fun t => { t with previous := none }

/-- Binds a name in the current scope. -/
def define (i : Nat) (name : String) (value : Value) : Steps Unit := do
  let c ← current i
  world fun w => w.bind c (.text name) value

/-- Binds a name anew that the current scope has. -/
def update (i : Nat) (name : String) (value : Value) : Steps Unit := do
  let c ← current i
  match ((← get).world.get? c).bind fun s => s.bindings.lookup (.text name) with
  | some _ => world fun w => w.bind c (.text name) value
  | none => throw .undeclared

/-- The value of a name, in a scope or in those around it. -/
def search (name : String) : Nat → Option ScopeId → Steps Value
  | 0, _ | _, none => throw (.undefinedName name)
  | steps + 1, some id => do
    match (← get).world.get? id with
    | none => throw (.undefinedName name)
    | some s =>
      match s.bindings.lookup (.text name) with
      | some v => return v
      | none => search name steps s.parent

/-- The value of a name in the current scope or in those around it. -/
def lookup (i : Nat) (name : String) : Steps Value := do
  let t ← table i
  search name ((← get).world.scopes.length + 1) t.current

end Steps

/-- What can be asked: a request, or the oldest or youngest scope of a table. -/
inductive Call
  | ask (r : Request)
  | first (table : Nat)
  | last (table : Nat)

/-- What a call gives back, and the tables after it. -/
def Call.perform (d : Tables) : Call → Except Fault (Response × Tables)
  | .ask r => d.perform r
  | .first i => d.withTable i fun t => t.first.map fun id => (.scope id, d)
  | .last i => d.withTable i fun t => t.last.map fun id => (.scope id, d)

/-- A call, statement by statement. -/
def Call.steps : Call → Steps Response
  | .ask (.create family) => do
    Steps.create family
    return .nothing
  | .ask (.add i name parent switch) => do
    let _ ← Steps.table i
    Steps.known parent
    return .scope (← Steps.add i name parent switch)
  | .ask (.destroy i id) => do
    Steps.destroy i id
    return .nothing
  | .ask (.setDefault i id) => do
    let t ← Steps.table i
    Steps.known (some id)
    Steps.world fun w => w.setDefault t.family (some id)
    return .nothing
  | .ask (.define i name value) => do
    Steps.define i name value
    return .nothing
  | .ask (.update i name value) => do
    Steps.update i name value
    return .nothing
  | .ask (.lookup i name) => do return .value (← Steps.lookup i name)
  | .first i => do
    let t ← Steps.table i
    return .scope (← Steps.ofOutcome t.first)
  | .last i => do
    let t ← Steps.table i
    return .scope (← Steps.ofOutcome t.last)

/-! ## What the statements come to -/

section Running

variable {α β : Type} {d : Tables} {i : Nat} {t : Table}

namespace Steps

/-- The outcome of changes that succeed as a whole or leave everything. -/
def settle (d : Tables) : Except Fault (α × Tables) → Except Fault α × Tables
  | .ok (a, d') => (.ok a, d')
  | .error e => (.error e, d)

@[simp] theorem runOn_pure (a : α) : (pure a : Steps α).runOn d = (.ok a, d) := rfl

@[simp] theorem runOn_throw (e : Fault) : (throw e : Steps α).runOn d = (.error e, d) := rfl

@[simp] theorem runOn_get : (get : Steps Tables).runOn d = (.ok d, d) := rfl

@[simp] theorem runOn_modify (f : Tables → Tables) :
    (modify f : Steps Unit).runOn d = (.ok (), f d) := rfl

@[simp] theorem runOn_bind (x : Steps α) (f : α → Steps β) : (x >>= f).runOn d =
    match x.runOn d with
    | (.ok a, d') => (f a).runOn d'
    | (.error e, d') => (.error e, d') := by
  change ExceptT.bindCont f (x d).1 (x d).2 = _
  rw [runOn]
  rcases x d with ⟨_ | _, d'⟩ <;> rfl

@[simp] theorem runOn_map (x : Steps α) (f : α → β) : (f <$> x).runOn d =
    match x.runOn d with
    | (.ok a, d') => (.ok (f a), d')
    | (.error e, d') => (.error e, d') := by
  rw [map_eq_pure_bind, runOn_bind]
  rfl

@[simp] theorem runOn_world (f : World → World) :
    (world f).runOn d = (.ok (), d.setWorld (f d.world)) := rfl

theorem runOn_table (ht : d.tables[i]? = some t) : (table i).runOn d = (.ok t, d) := by
  simp [table, ht]

theorem runOn_table_of_none (ht : d.tables[i]? = none) :
    (table i).runOn d = (.error (.unknownLabel "table"), d) := by
  simp [table, ht]

theorem runOn_change (f : Table → Table) (ht : d.tables[i]? = some t) :
    (change i f).runOn d = (.ok (), d.setTable i (f t)) := by
  simp [change, runOn_table ht]

theorem runOn_known (scope : Option ScopeId) : (known scope).runOn d =
    if ∀ id ∈ scope, id < d.world.scopes.length then (.ok (), d)
    else (.error (.unknownLabel "scope"), d) := by
  cases scope with
  | none => simp [known]
  | some id =>
    rcases Nat.lt_or_ge id d.world.scopes.length with h | h
    · simp [known, h, Nat.not_le.mpr h]
    · simp [known, h, Nat.not_lt.mpr h]

/-- A table that was changed is changed again. -/
theorem runOn_change_again (f : Table → Table) (u : Table) (ht : d.tables[i]? = some t) :
    (change i f).runOn (d.setTable i u) = (.ok (), d.setTable i (f u)) := by
  rw [runOn_change f (Tables.getElem?_setTable_self ht)]
  simp [Tables.setTable]

/-- Nothing that fails comes after the scope was made. -/
theorem runOn_add (name : String) (parent : Option ScopeId) (switch : Bool)
    (ht : d.tables[i]? = some t) : (add i name parent switch).runOn d =
      (.ok d.world.scopes.length, (d.setWorld (d.world.make name parent).1).setTable i
        (t.add d.world name parent switch).1) := by
  have hmade : (d.setWorld (d.world.make name parent).1).tables[i]? = some t := ht
  have hadd : (t.add d.world name parent switch).1 =
      if (t.live ++ [d.world.scopes.length]).length = 1 || switch then
        ⟨t.family, t.live ++ [d.world.scopes.length], some d.world.scopes.length, t.current⟩
      else { t with live := t.live ++ [d.world.scopes.length] } := by
    rw [Table.add]
    dsimp only [World.make]
    split <;> rfl
  rw [hadd]
  simp only [add, runOn_bind, runOn_get, runOn_world, runOn_change _ hmade,
    runOn_table (Tables.getElem?_setTable_self hmade)]
  split
  · simp only [runOn_bind, runOn_change_again _ _ hmade, runOn_pure]
  · rfl

/-- The only check comes before the scope is taken out. -/
theorem runOn_destroy (id : ScopeId) (ht : d.tables[i]? = some t) : (destroy i id).runOn d =
    settle d ((t.destroy (some id)).map fun t => ((), d.setTable i t)) := by
  rw [Table.destroy]
  by_cases hid : id ∈ t.live
  · simp [destroy, runOn_table ht, hid, runOn_change _ ht, runOn_change_again _ _ ht, settle,
      Except.map]
  · simp [destroy, runOn_table ht, hid, settle, Except.map]

theorem runOn_define (name : String) (value : Value) (ht : d.tables[i]? = some t) :
    (define i name value).runOn d =
      settle d ((t.define d.world (.text name) value).map fun w => ((), d.setWorld w)) := by
  cases hc : t.current with
  | none => simp [define, current, runOn_table ht, Table.define, hc, settle, Except.map]
  | some c => simp [define, current, runOn_table ht, Table.define, hc, settle, Except.map]

theorem runOn_update (name : String) (value : Value) (ht : d.tables[i]? = some t) :
    (update i name value).runOn d =
      settle d ((t.update d.world (.text name) value).map fun w => ((), d.setWorld w)) := by
  cases hc : t.current with
  | none => simp [update, current, runOn_table ht, Table.update, hc, settle, Except.map]
  | some c =>
    cases hb : (d.world.get? c).bind fun s => s.bindings.lookup (.text name) with
    | none => simp [update, current, runOn_table ht, Table.update, hc, hb, settle, Except.map]
    | some v => simp [update, current, runOn_table ht, Table.update, hc, hb, settle, Except.map]

/-- Searching reads scopes and changes nothing. -/
theorem runOn_search (name : String) (steps : Nat) (start : Option ScopeId) :
    (search name steps start).runOn d =
      match d.world.findFrom (.text name) steps start with
      | some v => (.ok v, d)
      | none => (.error (.undefinedName name), d) := by
  induction steps generalizing start with
  | zero => rfl
  | succ steps ih =>
    cases start with
    | none => rfl
    | some id =>
      rw [search, World.findFrom]
      cases hs : d.world.get? id with
      | none => simp [hs]
      | some s =>
        cases hv : s.bindings.lookup (.text name) with
        | none => simp [hs, hv, ih]
        | some v => simp [hs, hv]

end Steps

/-- A call to a table does what it does there, or fails because the table was never made. -/
theorem Steps.runOn_withTable {x : Steps α} {f : Table → Except Fault (α × Tables)}
    (hgone : d.tables[i]? = none → x.runOn d = (.error (.unknownLabel "table"), d))
    (h : ∀ t, d.tables[i]? = some t → x.runOn d = settle d (f t)) :
    x.runOn d = settle d (d.withTable i f) := by
  rw [Tables.withTable]
  cases ht : d.tables[i]? with
  | none => exact hgone ht
  | some t => exact h t ht

/-- **One call.** Statement by statement it does all that the operation says, or fails with the
same fault and changes nothing. -/
theorem Call.run_steps (c : Call) (d : Tables) :
    c.steps.runOn d = Steps.settle d (c.perform d) := by
  -- In every case a table that is not there is found out first.
  have hgone : ∀ {i}, d.tables[i]? = none → (Steps.table i).runOn d = _ :=
    Steps.runOn_table_of_none
  match c with
  | .ask (.create family) =>
    -- The root is added to the table that was just made, and that cannot fail.
    have hnew : (d.tables ++ [(⟨family, [], none, none⟩ : Table)])[d.tables.length]? =
        some ⟨family, [], none, none⟩ := List.getElem?_concat_length
    simp [steps, perform, Tables.perform, Table.create, Steps.create, Steps.settle, Table.add,
      Steps.runOn_add (d := ⟨d.world, _⟩) _ _ _ hnew, World.make, Tables.setTable, Tables.setWorld]
  | .ask (.add i name none switch) =>
    refine Steps.runOn_withTable (fun ht => by simp [steps, hgone ht]) fun t ht => ?_
    simp [steps, Steps.runOn_table ht, Steps.runOn_known, Steps.runOn_add _ _ _ ht,
      Tables.addTo_eq, Steps.settle]
  | .ask (.add i name (some p) switch) =>
    refine Steps.runOn_withTable (fun ht => by simp [steps, hgone ht]) fun t ht => ?_
    by_cases hp : p < d.world.scopes.length <;>
      simp [steps, Tables.withScope, hp, Steps.runOn_table ht, Steps.runOn_known,
        Steps.runOn_add _ _ _ ht, Tables.addTo_eq, Steps.settle]
  | .ask (.destroy i id) =>
    refine Steps.runOn_withTable (fun ht => by simp [steps, Steps.destroy, hgone ht]) fun t ht => ?_
    cases h : t.destroy (some id) <;>
      simp [steps, Steps.runOn_destroy _ ht, h, Steps.settle, Except.map]
  | .ask (.setDefault i id) =>
    refine Steps.runOn_withTable (fun ht => by simp [steps, hgone ht]) fun t ht => ?_
    by_cases hid : id < d.world.scopes.length <;>
      simp [steps, Tables.withScope, hid, Steps.runOn_table ht, Steps.runOn_known, Steps.settle]
  | .ask (.define i name value) =>
    refine Steps.runOn_withTable
      (fun ht => by simp [steps, Steps.define, Steps.current, hgone ht]) fun t ht => ?_
    cases h : t.define d.world (.text name) value <;>
      simp [steps, Steps.runOn_define _ _ ht, h, Steps.settle, Except.map]
  | .ask (.update i name value) =>
    refine Steps.runOn_withTable
      (fun ht => by simp [steps, Steps.update, Steps.current, hgone ht]) fun t ht => ?_
    cases h : t.update d.world (.text name) value <;>
      simp [steps, Steps.runOn_update _ _ ht, h, Steps.settle, Except.map]
  | .ask (.lookup i name) =>
    refine Steps.runOn_withTable (fun ht => by simp [steps, Steps.lookup, hgone ht]) fun t ht => ?_
    cases h : d.world.findFrom (.text name) (d.world.scopes.length + 1) t.current <;>
      simp [steps, Steps.lookup, Steps.runOn_table ht, Table.lookup, World.find?,
        Steps.runOn_search, h, Steps.settle, Except.map]
  | .first i =>
    refine Steps.runOn_withTable (fun ht => by simp [steps, hgone ht]) fun t ht => ?_
    cases h : t.first <;>
      simp [steps, Steps.runOn_table ht, h, Steps.ofOutcome, Steps.settle, Except.map]
  | .last i =>
    refine Steps.runOn_withTable (fun ht => by simp [steps, hgone ht]) fun t ht => ?_
    cases h : t.last <;>
      simp [steps, Steps.runOn_table ht, h, Steps.ofOutcome, Steps.settle, Except.map]

end Running

/-! ## Updates and definitions -/

/-- The names that are bound in a scope, in the order of their first binding. -/
def World.namesOf (w : World) (id : ScopeId) : List Value :=
  ((w.get? id).map fun s => s.bindings.map Prod.fst).getD []

section Updates

variable {w : World} {t : Table} {c : ScopeId}

theorem isSome_lookup_iff (name : Value) (bindings : List (Value × Value)) :
    (bindings.lookup name).isSome = true ↔ name ∈ bindings.map Prod.fst := by
  simp [List.lookup_isSome_iff]

/-- A name that is bound keeps its place when it is bound anew. -/
theorem map_fst_put {name : Value} (value : Value) {bindings : List (Value × Value)}
    (h : name ∈ bindings.map Prod.fst) :
    (put name value bindings).map Prod.fst = bindings.map Prod.fst := by
  induction bindings with
  | nil => cases h
  | cons b rest ih =>
    rw [put]
    split
    · rfl
    · next hne =>
      rw [List.map_cons, List.map_cons, ih]
      exact (List.mem_cons.mp h).resolve_left (Ne.symm hne)

theorem namesOf_bind {name : Value} (value : Value) (h : name ∈ w.namesOf c) (id : ScopeId) :
    (w.bind c name value).namesOf id = w.namesOf id := by
  rw [World.namesOf, World.namesOf, get?_bind_eq]
  cases hs : w.get? id with
  | none => rfl
  | some s =>
    by_cases hc : c = id
    · subst hc
      rw [World.namesOf, hs] at h
      simpa using map_fst_put value h
    · simp [hc]

/-- An update is a definition where the current scope has the name, and fails elsewhere. -/
theorem update_eq (name value : Value) (hc : t.current = some c) : t.update w name value =
    if name ∈ w.namesOf c then t.define w name value else .error .undeclared := by
  rw [Table.update, Table.define, hc, World.namesOf]
  cases hs : w.get? c with
  | none => simp [hs]
  | some s => simp only [hs, Option.bind_some, Option.map_some, Option.getD_some, isSome_lookup_iff]

/-- **Failed calls change nothing.** Whatever the state of any number of tables, a call done
statement by statement either does what the operation says, or fails with the same fault and
leaves all tables, scopes, bindings and default parents exactly as they were. An update fails
exactly if there is no current scope or the name is not bound in the current scope itself;
otherwise it does what a definition does, and the names of every scope keep their order. -/
theorem failed_call_changes_nothing (d : Tables) :
    (∀ c : Call,
      (∃ a d', c.steps.runOn d = (.ok a, d') ∧ c.perform d = .ok (a, d')) ∨
      ∃ e, c.steps.runOn d = (.error e, d) ∧ c.perform d = .error e) ∧
    ∀ t ∈ d.tables, ∀ (name : String) (value : Value),
      ((∃ e, t.update d.world (.text name) value = .error e) ↔
        t.current = none ∨ ∃ c, t.current = some c ∧ .text name ∉ d.world.namesOf c) ∧
      ∀ w, t.update d.world (.text name) value = .ok w →
        t.define d.world (.text name) value = .ok w ∧ ∀ id, w.namesOf id = d.world.namesOf id := by
  refine ⟨fun c => ?_, fun t _ name value => ?_⟩
  · rw [Call.run_steps]
    cases c.perform d with
    | error e => exact .inr ⟨e, rfl, rfl⟩
    | ok result => exact .inl ⟨result.1, result.2, rfl, rfl⟩
  · cases hc : t.current with
    | none => simp [Table.update, hc]
    | some c =>
      rw [update_eq _ _ hc, Table.define, hc]
      by_cases hname : Value.text name ∈ d.world.namesOf c
      · refine ⟨by simp [hname], ?_⟩
        rw [if_pos hname]
        rintro w ⟨⟩
        exact ⟨rfl, namesOf_bind value hname⟩
      · simp [hname]

end Updates

end ProgramTree.Scope
