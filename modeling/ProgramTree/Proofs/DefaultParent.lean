/-
The default parent of a scope.

A table sets a default parent for its scopes: its root when it is made, and later whatever
scope it is asked to set. The setting is kept with the family of the table, so all tables of
a family share it, and a scope that is added without a parent reads the setting of the base
family, whatever its own family is. So it is not the table's own choice that counts but the
latest choice of any table of the base family, and where there is none, the new scope has no
parent at all and finds nothing of what is defined in the root.

The choices are told from the requests alone (`Tables.settings`). The main statement says
when the new scope has the parent that its table chose, and which names are found from it
ever after.
-/
import ProgramTree.Proofs.Live

namespace ProgramTree.Scope

/-! ## Choices of a default parent -/

/-- A default parent that was set: which table set it, of which family, and which scope. -/
structure Setting where
  table : Nat
  family : Family
  scope : ScopeId
deriving DecidableEq, Repr

/-- What a request sets if it succeeds. A table sets its root when it is made. -/
def Request.setting? (d : Tables) : Request → Option Setting
  | .create family => some ⟨d.tables.length, family, d.world.scopes.length⟩
  | .setDefault i id => d.tables[i]?.map fun t => ⟨i, t.family, id⟩
  | _ => none

/-- All settings of a run, in their order; a request that fails sets nothing. -/
def Tables.settings : Tables → List Request → List Setting
  | _, [] => []
  | d, r :: rs =>
    match d.perform r with
    | .ok (_, d') => (r.setting? d).toList ++ settings d' rs
    | .error _ => settings d rs

/-- The scope of the latest setting of some kind. -/
def latestScope? (kind : Setting → Bool) (log : List Setting) : Option ScopeId :=
  ((log.filter kind).getLast?).map Setting.scope

/-- The default parent that a table chose: the latest one it was asked to set, or its root. -/
def chosen? (log : List Setting) (i : Nat) : Option ScopeId :=
  latestScope? (fun e => e.table = i) log

/-- The default parent that is in force: the latest one that a table of the base family
chose. -/
def inForce? (log : List Setting) : Option ScopeId :=
  latestScope? (fun e => e.family = .base) log

theorem latestScope?_append (kind : Setting → Bool) (log : List Setting) (e : Setting) :
    latestScope? kind (log ++ [e]) =
      if kind e then some e.scope else latestScope? kind log := by
  rw [latestScope?, List.filter_append]
  by_cases h : kind e = true
  · simp [h]
  · simp [h, latestScope?]

/-- What the default parents have to do with the past: the one that new scopes read is in
force, and every table has chosen one. -/
structure Tables.Settled (d : Tables) (log : List Setting) : Prop where
  inForce : d.world.baseDefault = inForce? log
  chosen : ∀ i < d.tables.length, (chosen? log i).isSome = true

section Settings

variable {d d' : Tables} {r : Request} {log : List Setting}

theorem Tables.settled_start : Tables.start.Settled [] where
  inForce := rfl
  chosen := by simp [Tables.start]

theorem baseDefault_setDefault_eq (w : World) (family : Family) (id : Option ScopeId) :
    (w.setDefault family id).baseDefault = if family = .base then id else w.baseDefault := by
  cases family <;> rfl

/-- A setting of the base family comes into force. -/
theorem inForce?_append (log : List Setting) (e : Setting) :
    inForce? (log ++ [e]) = if e.family = .base then some e.scope else inForce? log := by
  rw [inForce?, latestScope?_append]
  simp only [decide_eq_true_eq]
  rfl

/-- A setting is the choice of its table. -/
theorem isSome_chosen?_append {e : Setting} {i : Nat}
    (h : e.table = i ∨ (chosen? log i).isSome = true) :
    (chosen? (log ++ [e]) i).isSome = true := by
  rw [chosen?, latestScope?_append]
  by_cases hi : e.table = i
  · simp [hi]
  · simpa [hi, chosen?] using h.resolve_left hi

/-- What sets nothing keeps the default parents and the number of tables. -/
theorem Tables.Settled.keep (h : d.Settled log)
    (hdefault : d'.world.baseDefault = d.world.baseDefault)
    (hlength : d'.tables.length = d.tables.length) : d'.Settled (log ++ []) := by
  rw [List.append_nil]
  exact ⟨hdefault.trans h.inForce, fun i hi => h.chosen i (hlength ▸ hi)⟩

/-- **One request.** The default parents are those of the settings, this request's included. -/
theorem Tables.Settled.step (h : d.Settled log) (he : d.Effect r d') :
    d'.Settled (log ++ (r.setting? d).toList) := by
  cases he with
  | create family =>
    refine ⟨?_, ?_⟩
    · rw [baseDefault_setDefault_eq, Request.setting?, Option.toList_some, inForce?_append,
        ← h.inForce]
      rfl
    · intro i hi
      rw [List.length_append, List.length_singleton] at hi
      refine isSome_chosen?_append ?_
      rcases Nat.lt_succ_iff_lt_or_eq.mp hi with hi | hi
      · exact .inr (h.chosen i hi)
      · exact .inl hi.symm
  | @setDefault i t id ht hid =>
    rw [Request.setting?, ht, Option.map_some, Option.toList_some]
    refine ⟨?_, fun j hj => isSome_chosen?_append (.inr (h.chosen j hj))⟩
    rw [Tables.world_setWorld, baseDefault_setDefault_eq, inForce?_append, h.inForce]
  | add name parent change ht hparent => exact h.keep rfl (List.length_set ..)
  | destroy ht hlive => exact h.keep rfl (List.length_set ..)
  | define name value ht hcurrent => exact h.keep rfl rfl
  | update name value ht hcurrent hs hbound => exact h.keep rfl rfl
  | lookup i name => exact h.keep rfl rfl

/-- **A run.** The default parents are those of all its settings. -/
theorem Tables.Settled.run (rs : List Request) (h : d.Settled log) :
    (d.run rs).Settled (log ++ d.settings rs) := by
  induction rs generalizing d log with
  | nil => simpa [Tables.run, Tables.settings] using h
  | cons r rs ih =>
    rw [Tables.run, Tables.after, Tables.settings]
    cases hperform : d.perform r with
    | error e => exact ih h
    | ok result =>
      have hrest := ih (h.step (Tables.effect_of_perform hperform))
      simpa only [List.append_assoc] using hrest

end Settings

/-! ## The way outwards stays -/

section Ways

variable {d d' : Tables} {r : Request} {start : Option ScopeId} {ids : List ScopeId}

/-- Binding a name in a scope leaves all scopes there, with their parents. -/
theorem exists_get?_bind {w : World} {id : ScopeId} {s : Scope} (hs : w.get? id = some s)
    (c : ScopeId) (name value : Value) :
    ∃ s', (w.bind c name value).get? id = some s' ∧ s'.parent = s.parent := by
  rw [get?_bind_eq, hs, Option.map_some]
  refine ⟨_, rfl, ?_⟩
  split
  · rfl
  · rfl

/-- **One request.** A scope stays, and so does its parent. -/
theorem get?_of_effect {id : ScopeId} {s : Scope} (he : d.Effect r d')
    (hs : d.world.get? id = some s) :
    ∃ s', d'.world.get? id = some s' ∧ s'.parent = s.parent := by
  have hid : id < d.world.scopes.length := lt_of_get? hs
  cases he with
  | create family => exact ⟨s, by rw [get?_setDefault, get?_make_of_lt hid, hs], rfl⟩
  | add name parent change ht hparent =>
    exact ⟨s, by rw [Tables.world_setTable, Tables.world_setWorld, get?_make_of_lt hid, hs], rfl⟩
  | destroy ht hlive => exact ⟨s, hs, rfl⟩
  | setDefault ht hid' => exact ⟨s, by rw [Tables.world_setWorld, get?_setDefault, hs], rfl⟩
  | define name value ht hcurrent => exact exists_get?_bind hs _ _ _
  | update name value ht hcurrent hs' hbound => exact exists_get?_bind hs _ _ _
  | lookup i name => exact ⟨s, hs, rfl⟩

/-- **One request.** The way outwards from a scope stays as it is. -/
theorem Chain.of_effect (h : Chain d.world start ids) (he : d.Effect r d') :
    Chain d'.world start ids := by
  induction h with
  | outermost => exact .outermost
  | step hs hrest ih =>
    obtain ⟨s', hs', hparent⟩ := get?_of_effect he hs
    exact .step hs' (hparent ▸ ih)

/-- **A run.** The way outwards from a scope stays as it is, whatever is asked later. -/
theorem Chain.run (h : Chain d.world start ids) (rs : List Request) :
    Chain (d.run rs).world start ids :=
  Tables.run_keeps (P := fun d => Chain d.world start ids) (fun _ _ _ => Chain.of_effect) h rs

/-- There is a way outwards from a scope that was made, and from none at all. -/
theorem exists_chain_of_inRange {w : World} (hold : w.ParentsOlder)
    (hstart : ∀ id ∈ start, id < w.scopes.length) :
    ∃ ids, Chain w start ids ∧ ids.length ≤ w.scopes.length := by
  cases start with
  | none => exact ⟨[], .outermost, Nat.zero_le _⟩
  | some id =>
    have hid : id < w.scopes.length := hstart id rfl
    obtain ⟨ids, hchain, -, hlength, -⟩ := exists_chain hold id hid
    exact ⟨ids, hchain, Nat.le_trans hlength hid⟩

/-- From the current scope of a table a name is found exactly if it was ever defined in a
scope on the way outwards. -/
theorem Traced.lookup_ok_iff {w : World} {log : List Write} {t : Table} (h : Traced w log)
    (hchain : Chain w t.current ids) (hlength : ids.length ≤ w.scopes.length + 1) (name : String) :
    (∃ v, t.lookup w name = .ok v) ↔ ∃ id ∈ ids, wasDefined log name id = true := by
  rw [Table.lookup, World.find?, hchain.findFrom_eq _ hlength, h.findSome?_eq name hchain]
  cases hfirst : ids.find? (wasDefined log name) with
  | none =>
    constructor
    · rintro ⟨v, hv⟩
      cases hv
    · rintro ⟨id, hid, hdefined⟩
      exact absurd hdefined (List.find?_eq_none.mp hfirst id hid)
  | some id =>
    have hdefined : wasDefined log name id = true := List.find?_some hfirst
    obtain ⟨v, hv⟩ := Option.isSome_iff_exists.mp ((h.defined name id).trans hdefined)
    constructor
    · exact fun _ => ⟨id, List.mem_of_find?_eq_some hfirst, hdefined⟩
    · exact fun _ => ⟨v, by rw [Option.bind_some, hv]⟩

end Ways

/-! ## Adding a scope without a parent -/

section Adding

variable {i : Nat} {t : Table}

/-- A scope can always be added without a parent; it is the youngest one of all. -/
theorem Tables.exists_perform_add {d : Tables} (ht : d.tables[i]? = some t) (name : String)
    (change : Bool) : ∃ d', d.perform (.add i name none change) =
      .ok (.scope d.world.scopes.length, d') ∧ d'.world = (d.world.make name none).1 := by
  have hadd : d.perform (.add i name none change) = .ok (d.addTo i name none change t) :=
    Tables.withTable_eq_ok.mpr ⟨t, ht, rfl⟩
  rw [Tables.addTo_eq] at hadd
  exact ⟨_, hadd, rfl⟩

/-- **When the choice of a table counts.** Take a table after any requests to any number of
tables, and add a scope to it without a parent. This succeeds, and the parent of the new scope
is the default parent that the table chose exactly if this is also the latest choice of all
tables of the base family. From then on, whatever is asked, a name is found from the new scope
exactly if it was defined in the scope itself or in one on the way outwards from that latest
choice. -/
theorem added_scope_honours_choice_iff (rs : List Request)
    (ht : (Tables.start.run rs).tables[i]? = some t) (name : String) (change : Bool) :
    ∃ n d' chosen outer,
      (Tables.start.run rs).perform (.add i name none change) = .ok (.scope n, d') ∧
      chosen? (Tables.start.settings rs) i = some chosen ∧
      (d'.world.parentOf? n = some chosen ↔
        inForce? (Tables.start.settings rs) = some chosen) ∧
      Chain (Tables.start.run rs).world (inForce? (Tables.start.settings rs)) outer ∧
      ∀ later : List Request, ∀ t' ∈ (d'.run later).tables, t'.current = some n →
        ∀ x : String, (∃ v, t'.lookup (d'.run later).world x = .ok v) ↔
          ∃ id ∈ n :: outer, wasDefined
            (Tables.start.history (rs ++ .add i name none change :: later)) x id = true := by
  have hsettled := Tables.settled_start.run rs
  obtain ⟨htraced, hrange⟩ := traced_run rs traced_empty Tables.inRange_start
  rw [List.nil_append] at hsettled
  obtain ⟨chosen, hchosen⟩ := Option.isSome_iff_exists.mp
    (hsettled.chosen i (List.getElem?_eq_some_iff.mp ht).1)
  obtain ⟨outer, houter, hlength⟩ := exists_chain_of_inRange htraced.older hrange.baseDefault
  obtain ⟨d', hadd, hworld⟩ := Tables.exists_perform_add ht name change
  have heffect := Tables.effect_of_perform hadd
  have hscope : d'.world.get? (Tables.start.run rs).world.scopes.length =
      some ⟨name, inForce? (Tables.start.settings rs), []⟩ := by
    rw [hworld, get?_make_self, ← hsettled.inForce]
    rfl
  rw [hsettled.inForce] at houter
  refine ⟨_, d', chosen, outer, hadd, hchosen, ?_, houter, ?_⟩
  · rw [World.parentOf?, hscope, Option.bind_some]
  · intro later t' ht' hcurrent x
    -- the way outwards from the new scope: the scope, and the way from what is in force
    have hway : Chain (d'.run later).world t'.current (_ :: outer) :=
      hcurrent ▸ (Chain.step hscope (houter.of_effect heffect)).run later
    have hgrown := Tables.run_keeps (P := fun d => outer.length ≤ d.world.scopes.length)
      (fun _ _ _ hle he => Nat.le_trans hle he.length_le)
      (Nat.le_trans hlength heffect.length_le) later
    obtain ⟨htraced', -⟩ := traced_run (rs ++ .add i name none change :: later) traced_empty
      Tables.inRange_start
    rw [List.nil_append, Tables.run_append, Tables.run, Tables.after_eq_of_ok hadd] at htraced'
    exact htraced'.lookup_ok_iff hway (Nat.succ_le_succ hgrown) x

/-- A table of the base family with a name in its root, and a table of the plain family made
after it. -/
def rootWithName : List Request :=
  [.create .base, .define 0 "x" (.int 1), .create .plain]

/-- A scope that is added to the table of the base family has its root as its parent, and the
name is found from there. -/
theorem rootWithName_honours_choice :
    ∃ n d', (Tables.start.run rootWithName).perform (.add 0 "inner" none true) =
        .ok (.scope n, d') ∧ d'.world.parentOf? n = some 0 ∧
      ∀ t ∈ d'.tables, t.current = some n → ∃ v, t.lookup d'.world "x" = .ok v := by
  obtain ⟨n, d', chosen, outer, hadd, hchosen, hhonoured, houter, hfound⟩ :=
    added_scope_honours_choice_iff rootWithName (i := 0)
      (t := ⟨.base, [0], some 0, none⟩) rfl "inner" true
  cases hchosen
  refine ⟨n, d', hadd, hhonoured.mpr rfl, fun t ht hcurrent => ?_⟩
  refine (hfound [] t ht hcurrent "x").mpr ⟨0, ?_, rfl⟩
  cases houter with
  | step hs hrest => exact List.mem_cons_of_mem n (List.mem_cons_self)

/-- A scope that is added to a table of the plain family has no parent, though the table chose
its root, and a name that is defined in the root is not found from the scope. -/
theorem addedScope_misses_root :
    chosen? (Tables.start.settings [.create .plain, .define 0 "x" (.int 1)]) 0 = some 0 ∧
    (Tables.start.run [.create .plain, .define 0 "x" (.int 1),
      .add 0 "inner" none true]).world.parentOf? 1 = none ∧
    ((Tables.start.run [.create .plain, .define 0 "x" (.int 1),
      .add 0 "inner" none true]).perform (.lookup 0 "x")).map Prod.fst =
        .error (.undefinedName "x") := by
  exact ⟨rfl, rfl, rfl⟩

end Adding

end ProgramTree.Scope
