/-
Tables that share a world do not interfere.

All tables keep their scopes in one world, and all of them write the default parent of their
family. That a table still behaves as if it were alone is a statement about two runs: a run of
operations on any number of tables, and the run of the operations on one of them.

The two runs number the scopes differently. The proof pairs the scopes at the same place among
those that the table made (`Twin`) and shows that the pairing is kept: by an operation on the
table, which then answers the same in both runs, and by an operation on another one, which is
done in one run only.
-/
import Mathlib.Data.List.Forall2
import ProgramTree.Proofs.Tenants

namespace ProgramTree.Scope

/-! ## Scopes at the same place -/

/-- Two scopes that stand at the same place in two lists. -/
def Twin (l l' : List ScopeId) (a b : ScopeId) : Prop :=
  ∃ place : Nat, l[place]? = some a ∧ l'[place]? = some b

section Twins

variable {l l' : List ScopeId} {a b x y : ScopeId}

theorem Twin.left_mem (h : Twin l l' a b) : a ∈ l := by
  obtain ⟨place, ha, -⟩ := h
  exact List.mem_of_getElem? ha

theorem Twin.right_mem (h : Twin l l' a b) : b ∈ l' := by
  obtain ⟨place, -, hb⟩ := h
  exact List.mem_of_getElem? hb

/-- Where no scope stands twice, the pairing is one to one. -/
theorem biUnique_twin (hl : l.Nodup) (hl' : l'.Nodup) : Relator.BiUnique (Twin l l') := by
  constructor
  · rintro a b c ⟨k, ha, hc⟩ ⟨k', hb, hc'⟩
    have hk : k = k' := (List.getElem?_inj (List.getElem?_eq_some_iff.mp hc).1 hl').mp
      (hc.trans hc'.symm)
    subst hk
    exact Option.some.inj (ha.symm.trans hb)
  · rintro a b c ⟨k, ha, hb⟩ ⟨k', ha', hc⟩
    have hk : k = k' := (List.getElem?_inj (List.getElem?_eq_some_iff.mp ha).1 hl).mp
      (ha.trans ha'.symm)
    subst hk
    exact Option.some.inj (hb.symm.trans hc)

theorem Twin.idxOf_eq (h : Twin l l' a b) (hl : l.Nodup) (hl' : l'.Nodup) :
    l.idxOf a = l'.idxOf b := by
  obtain ⟨k, ha, hb⟩ := h
  obtain ⟨hk, rfl⟩ := List.getElem?_eq_some_iff.mp ha
  obtain ⟨hk', rfl⟩ := List.getElem?_eq_some_iff.mp hb
  rw [hl.idxOf_getElem, hl'.idxOf_getElem]

theorem Twin.append (h : Twin l l' a b) (x y : ScopeId) : Twin (l ++ [x]) (l' ++ [y]) a b := by
  obtain ⟨k, ha, hb⟩ := h
  refine ⟨k, ?_, ?_⟩
  · rw [List.getElem?_append_left (List.getElem?_eq_some_iff.mp ha).1, ha]
  · rw [List.getElem?_append_left (List.getElem?_eq_some_iff.mp hb).1, hb]

theorem twin_last (hlength : l.length = l'.length) (x y : ScopeId) :
    Twin (l ++ [x]) (l' ++ [y]) x y :=
  ⟨l.length, List.getElem?_concat_length, hlength ▸ List.getElem?_concat_length⟩

/-- The pairs of two lists that grow by one scope: those before, and the two new ones. -/
theorem Twin.of_append (h : Twin (l ++ [x]) (l' ++ [y]) a b) (hlength : l.length = l'.length) :
    Twin l l' a b ∨ a = x ∧ b = y := by
  obtain ⟨k, ha, hb⟩ := h
  rcases Nat.lt_or_ge k l.length with hlt | hge
  · rw [List.getElem?_append_left hlt] at ha
    rw [List.getElem?_append_left (hlength ▸ hlt)] at hb
    exact .inl ⟨k, ha, hb⟩
  · have hk : k = l.length := by
      have := (List.getElem?_eq_some_iff.mp ha).1
      rw [List.length_append, List.length_singleton] at this
      omega
    subst hk
    rw [List.getElem?_concat_length] at ha
    rw [hlength, List.getElem?_concat_length] at hb
    exact .inr ⟨(Option.some.inj ha).symm, (Option.some.inj hb).symm⟩

theorem rel_cases {α β : Type} {R : α → β → Prop} {o : Option α} {o' : Option β}
    (h : Option.Rel R o o') :
    o = none ∧ o' = none ∨ ∃ a b, o = some a ∧ o' = some b ∧ R a b := by
  cases h with
  | none => exact .inl ⟨rfl, rfl⟩
  | some hab => exact .inr ⟨_, _, rfl, rfl, hab⟩

theorem rel_getElem? (hlength : l.length = l'.length) (k : Nat) :
    Option.Rel (Twin l l') l[k]? l'[k]? := by
  rcases Nat.lt_or_ge k l.length with hlt | hge
  · have hlt' : k < l'.length := hlength ▸ hlt
    rw [List.getElem?_eq_getElem hlt, List.getElem?_eq_getElem hlt']
    exact .some ⟨k, List.getElem?_eq_getElem hlt, List.getElem?_eq_getElem hlt'⟩
  · rw [List.getElem?_eq_none hge, List.getElem?_eq_none (hlength ▸ hge)]
    exact .none

theorem rel_append {o o' : Option ScopeId} (h : Option.Rel (Twin l l') o o') (x y : ScopeId) :
    Option.Rel (Twin (l ++ [x]) (l' ++ [y])) o o' := by
  cases h with
  | some hab => exact .some (hab.append x y)
  | none => exact .none

theorem forall₂_twin (hlength : l.length = l'.length) : List.Forall₂ (Twin l l') l l' := by
  refine List.forall₂_of_length_eq_of_get hlength fun k hk hk' => ?_
  exact ⟨k, List.getElem?_eq_getElem hk, List.getElem?_eq_getElem hk'⟩

/-- Taking out two paired members leaves the others paired. -/
theorem forall₂_erase {R : ScopeId → ScopeId → Prop} (hR : Relator.BiUnique R) (hab : R a b)
    {ids ids' : List ScopeId} (h : List.Forall₂ R ids ids') :
    List.Forall₂ R (ids.erase a) (ids'.erase b) := by
  induction h with
  | nil => exact .nil
  | @cons c c' ids ids' hcc hrest ih =>
    have hiff : c = a ↔ c' = b := by
      constructor
      · rintro rfl
        exact hR.2 hcc hab
      · rintro rfl
        exact hR.1 hcc hab
    rw [List.erase_cons, List.erase_cons]
    by_cases hc : c = a
    · simpa [hc, hiff.mp hc] using hrest
    · simpa [hc, mt hiff.mpr hc] using And.intro hcc ih

end Twins

/-! ## Tables that look the same -/

/-- Two scopes with the same name and the same bindings, whose parents are paired and
older. -/
structure SameScope (l l' : List ScopeId) (a b : ScopeId) (s s' : Scope) : Prop where
  name : s.name = s'.name
  bindings : s.bindings = s'.bindings
  parent : Option.Rel (Twin l l') s.parent s'.parent
  older : ∀ p ∈ s.parent, p < a
  older' : ∀ p ∈ s'.parent, p < b

/-- Two tables in two worlds that differ in nothing but the numbers of their scopes. -/
structure Alike (w w' : World) (m m' : Tenant) : Prop where
  length : m.made.length = m'.made.length
  nodup : m.made.Nodup
  nodup' : m'.made.Nodup
  family : m.table.family = m'.table.family
  live : List.Forall₂ (Twin m.made m'.made) m.table.live m'.table.live
  current : Option.Rel (Twin m.made m'.made) m.table.current m'.table.current
  previous : Option.Rel (Twin m.made m'.made) m.table.previous m'.table.previous
  scopes : ∀ a b, Twin m.made m'.made a b → ∃ s s', w.get? a = some s ∧ w'.get? b = some s' ∧
    SameScope m.made m'.made a b s s'

namespace Alike

variable {w w' : World} {m m' : Tenant} {a b : ScopeId}

section

variable (h : Alike w w' m m')

include h

theorem biUnique : Relator.BiUnique (Twin m.made m'.made) :=
  biUnique_twin h.nodup h.nodup'

theorem place_eq (hab : Twin m.made m'.made a b) : m.place a = m'.place b :=
  hab.idxOf_eq h.nodup h.nodup'

/-- Such tables show the same. -/
theorem view_eq : m.view w = m'.view w' := by
  have hoption : ∀ o o', Option.Rel (Twin m.made m'.made) o o' →
      o.map m.place = o'.map m'.place := by
    intro o o' ho
    cases ho with
    | some hab => exact congrArg some (h.place_eq hab)
    | none => rfl
  have hlive : m.table.live.map m.place = m'.table.live.map m'.place := by
    rw [← List.forall₂_eq_eq_eq]
    exact List.rel_map (fun a b hab => h.place_eq hab) h.live
  have hscopes : (m.view w).scopes = (m'.view w').scopes := by
    rw [Tenant.view, Tenant.view, ← List.forall₂_eq_eq_eq]
    refine List.rel_map (fun a b hab => ?_) (forall₂_twin h.length)
    obtain ⟨s, s', hs, hs', hsame⟩ := h.scopes a b hab
    rw [hs, hs', Option.map_some, Option.map_some, hsame.name, hsame.bindings,
      hoption _ _ hsame.parent]
  have htable : (m.view w).table = (m'.view w').table := by
    rw [Tenant.view, Tenant.view]
    simp only [hlive, hoption _ _ h.current, hoption _ _ h.previous, h.family]
  exact congrArg₂ TableView.mk htable hscopes

/-- Only the scopes that the tables made count. -/
theorem of_get?_eq {w₁ w₁' : World} (hget : ∀ a ∈ m.made, w₁.get? a = w.get? a)
    (hget' : ∀ b ∈ m'.made, w₁'.get? b = w'.get? b) : Alike w₁ w₁' m m' := by
  refine { h with scopes := fun a b hab => ?_ }
  rw [hget a hab.left_mem, hget' b hab.right_mem]
  exact h.scopes a b hab

/-- Looking a name up from paired scopes finds the same: the way outwards goes from pair to
pair. It goes down in numbers, so any number of steps above these is enough. -/
theorem findFrom_eq (name : Value) (hab : Twin m.made m'.made a b) {steps steps' : Nat}
    (ha : a < steps) (hb : b < steps') :
    w.findFrom name steps (some a) = w'.findFrom name steps' (some b) := by
  -- on the number of the scope in the first world: the parent of a pair is a pair further down
  induction a using Nat.strongRecOn generalizing b steps steps' with
  | ind a ih =>
    obtain ⟨steps, rfl⟩ := Nat.exists_eq_succ_of_ne_zero (Nat.ne_zero_of_lt ha)
    obtain ⟨steps', rfl⟩ := Nat.exists_eq_succ_of_ne_zero (Nat.ne_zero_of_lt hb)
    obtain ⟨s, s', hs, hs', hsame⟩ := h.scopes a b hab
    have hrest : w.findFrom name steps s.parent = w'.findFrom name steps' s'.parent := by
      rcases rel_cases hsame.parent with ⟨hp, hp'⟩ | ⟨p, p', hp, hp', hpp⟩
      · rw [hp, hp']
        cases steps <;> cases steps' <;> rfl
      · have hlt : p < a := hsame.older p hp
        have hlt' : p' < b := hsame.older' p' hp'
        rw [hp, hp']
        exact ih p hlt hpp (Nat.lt_of_lt_of_le hlt (Nat.le_of_lt_succ ha))
          (Nat.lt_of_lt_of_le hlt' (Nat.le_of_lt_succ hb))
    rw [World.findFrom, World.findFrom, hs, hs']
    simp only [hsame.bindings, hrest]

theorem lookup_eq (name : String) : m.table.lookup w name = m'.table.lookup w' name := by
  have hfind : w.find? (.text name) m.table.current = w'.find? (.text name) m'.table.current := by
    rcases rel_cases h.current with ⟨hc, hc'⟩ | ⟨a, b, hc, hc', hab⟩
    · rw [hc, hc']
      rfl
    · obtain ⟨s, s', hs, hs', -⟩ := h.scopes a b hab
      rw [hc, hc']
      exact h.findFrom_eq _ hab (Nat.lt_succ_of_lt (lt_of_get? hs))
        (Nat.lt_succ_of_lt (lt_of_get? hs'))
  rw [Table.lookup, Table.lookup, hfind]

/-! ### What keeps tables alike -/

omit h in
theorem blank (w w' : World) : Alike w w' .blank .blank :=
  ⟨rfl, .nil, .nil, rfl, .nil, .none, .none, fun _ _ hab => absurd hab.left_mem List.not_mem_nil⟩

/-- Adding a scope to both, under paired parents. -/
theorem grow (hw : w.baseDefault = none) (hw' : w'.baseDefault = none)
    (hmade : ∀ id ∈ m.made, id < w.scopes.length) (hmade' : ∀ id ∈ m'.made, id < w'.scopes.length)
    (name : String) {p p' : Option ScopeId} (hp : Option.Rel (Twin m.made m'.made) p p')
    (change : Bool) : Alike (w.make name p).1 (w'.make name p').1
      ⟨(m.table.add w name p change).1, m.made ++ [w.scopes.length]⟩
      ⟨(m'.table.add w' name p' change).1, m'.made ++ [w'.scopes.length]⟩ := by
  have hnew := twin_last h.length w.scopes.length w'.scopes.length
  have hempty : m.table.live.isEmpty = m'.table.live.isEmpty := by
    rw [Bool.eq_iff_iff, List.isEmpty_iff_length_eq_zero, List.isEmpty_iff_length_eq_zero,
      h.live.length_eq]
  refine ⟨?_, nodup_append_of_lt h.nodup hmade, nodup_append_of_lt h.nodup' hmade', ?_, ?_, ?_,
    ?_, ?_⟩
  · rw [List.length_append, List.length_append, h.length, List.length_singleton,
      List.length_singleton]
  · rw [family_add, family_add, h.family]
  · rw [live_add, live_add]
    exact List.rel_append (h.live.imp fun a b hab => hab.append _ _) (.cons hnew .nil)
  · rw [current_add, current_add, hempty]
    split
    · exact .some hnew
    · exact rel_append h.current _ _
  · rw [previous_add, previous_add, hempty]
    split
    · exact rel_append h.current _ _
    · exact rel_append h.previous _ _
  · intro a b hab
    -- a pair from before is untouched, and the new pair is what was made just now
    rcases hab.of_append h.length with hab | ⟨rfl, rfl⟩
    · obtain ⟨s, s', hs, hs', hsame⟩ := h.scopes a b hab
      refine ⟨s, s', ?_, ?_, { hsame with parent := rel_append hsame.parent _ _ }⟩
      · rw [get?_make_of_lt (lt_of_get? hs), hs]
      · rw [get?_make_of_lt (lt_of_get? hs'), hs']
    · refine ⟨⟨name, p, []⟩, ⟨name, p', []⟩, ?_, ?_, rfl, rfl, rel_append hp _ _, ?_, ?_⟩
      · rw [get?_make_self, hw]
        cases p <;> rfl
      · rw [get?_make_self, hw']
        cases p' <;> rfl
      · rintro q rfl
        cases hp with
        | some hqq => exact hmade q hqq.left_mem
      · rintro q rfl
        cases hp with
        | some hqq => exact hmade' q hqq.right_mem

/-- Destroying paired scopes. -/
theorem destroy (hab : Twin m.made m'.made a b) : Alike w w'
    { m with table := { m.table with
      live := m.table.live.erase a, current := m.table.previous, previous := none } }
    { m' with table := { m'.table with
      live := m'.table.live.erase b, current := m'.table.previous, previous := none } } :=
  ⟨h.length, h.nodup, h.nodup', h.family, forall₂_erase h.biUnique hab h.live, h.previous, .none,
    h.scopes⟩

/-- Binding a name in paired scopes. -/
theorem bind (hab : Twin m.made m'.made a b) (name value : Value) :
    Alike (w.bind a name value) (w'.bind b name value) m m' := by
  refine { h with scopes := fun c c' hcc => ?_ }
  obtain ⟨s, s', hs, hs', hsame⟩ := h.scopes c c' hcc
  rw [get?_bind_eq, get?_bind_eq, hs, hs', Option.map_some, Option.map_some]
  refine ⟨_, _, rfl, rfl, ?_⟩
  -- the pairing is one to one: of a pair, both scopes get the binding or neither does
  have hiff : a = c ↔ b = c' := by
    constructor
    · rintro rfl
      exact h.biUnique.2 hab hcc
    · rintro rfl
      exact h.biUnique.1 hab hcc
  by_cases hac : a = c
  · rw [if_pos hac, if_pos (hiff.mp hac)]
    exact { hsame with bindings := congrArg (put name value) hsame.bindings }
  · rw [if_neg hac, if_neg (mt hiff.mpr hac)]
    exact hsame

end

end Alike

/-! ## One operation on both tables -/

/-- The same error, or the same answer and tables that are alike after it. -/
inductive SameOutcome : Except Fault (Response × World × Tenant) →
    Except Fault (Response × World × Tenant) → Prop
  | error (e : Fault) : SameOutcome (.error e) (.error e)
  | ok (a : Response) {w w' : World} {m m' : Tenant} (h : Alike w w' m m') :
      SameOutcome (.ok (a, w, m)) (.ok (a, w', m'))

/-- What a handle stands for in two worlds: paired scopes, or none of the table. -/
def Paired (m m' : Tenant) (scope scope' : Option ScopeId) : Prop :=
  Option.Rel (Twin m.made m'.made) scope scope' ∨
    (∀ id ∈ scope, id ∉ m.made) ∧ ∀ id ∈ scope', id ∉ m'.made

theorem destroy_of_not_live {t : Table} {scope : Option ScopeId}
    (h : ∀ id ∈ scope, id ∉ t.live) : t.destroy scope = .error .foreignScope := by
  cases scope with
  | none => rfl
  | some id => rw [Table.destroy, if_neg (mt List.contains_iff_mem.mp (h id rfl))]

namespace Alike

variable {w w' : World} {m m' : Tenant}

theorem same_destroy (h : Alike w w' m m') (hown : m.Own w.scopes.length)
    (hown' : m'.Own w'.scopes.length) {scope scope' : Option ScopeId}
    (hscope : Paired m m' scope scope') : SameOutcome
      ((m.table.destroy scope).map fun t => (.nothing, w, { m with table := t }))
      ((m'.table.destroy scope').map fun t => (.nothing, w', { m' with table := t })) := by
  rcases hscope with hscope | ⟨hscope, hscope'⟩
  · cases hscope with
    | none => exact .error _
    | @some a b hab =>
      have hmem : a ∈ m.table.live ↔ b ∈ m'.table.live := List.rel_mem h.biUnique hab h.live
      by_cases ha : a ∈ m.table.live
      · rw [Table.destroy, Table.destroy, if_pos (List.contains_iff_mem.mpr ha),
          if_pos (List.contains_iff_mem.mpr (hmem.mp ha))]
        exact .ok _ (h.destroy hab)
      · rw [destroy_of_not_live (by simpa using ha),
          destroy_of_not_live (by simpa [← hmem] using ha)]
        exact .error _
  · -- all that is live in a table was made there
    rw [destroy_of_not_live fun id hid hlive => hscope id hid (hown.live id hlive),
      destroy_of_not_live fun id hid hlive => hscope' id hid (hown'.live id hlive)]
    exact .error _

theorem same_define (h : Alike w w' m m') (name value : Value) : SameOutcome
    ((m.table.define w name value).map fun w => (.nothing, w, m))
    ((m'.table.define w' name value).map fun w => (.nothing, w, m')) := by
  rw [Table.define, Table.define]
  rcases rel_cases h.current with ⟨hc, hc'⟩ | ⟨a, b, hc, hc', hab⟩
  · rw [hc, hc']
    exact .error _
  · rw [hc, hc']
    exact .ok _ (h.bind hab name value)

theorem same_update (h : Alike w w' m m') (name value : Value) : SameOutcome
    ((m.table.update w name value).map fun w => (.nothing, w, m))
    ((m'.table.update w' name value).map fun w => (.nothing, w, m')) := by
  rw [Table.update, Table.update]
  rcases rel_cases h.current with ⟨hc, hc'⟩ | ⟨a, b, hc, hc', hab⟩
  · rw [hc, hc']
    exact .error _
  · obtain ⟨s, s', hs, hs', hsame⟩ := h.scopes a b hab
    simp only [hc, hc', hs, hs', Option.bind_some, hsame.bindings]
    split
    · exact .ok _ (h.bind hab name value)
    · exact .error _

/-- An operation does the same to tables that are alike. -/
theorem same_act (h : Alike w w' m m') (hown : m.Own w.scopes.length)
    (hown' : m'.Own w'.scopes.length) (hw : w.baseDefault = none) (hw' : w'.baseDefault = none)
    {scope? scope?' : Handle → Option ScopeId}
    (hscope : ∀ handle, Paired m m' (scope? handle) (scope?' handle)) (op : Operation) :
    SameOutcome (m.act w scope? op) (m'.act w' scope?' op) := by
  have hgrow : ∀ (name : String) {p p' : Option ScopeId},
      Option.Rel (Twin m.made m'.made) p p' → ∀ change : Bool,
      SameOutcome (.ok (m.grow w name p change)) (.ok (m'.grow w' name p' change)) := by
    intro name p p' hp change
    rw [grow_eq, grow_eq, h.length]
    exact .ok _ (h.grow hw hw' hown.made_lt hown'.made_lt name hp change)
  cases op with
  | create => exact .ok _ h
  | add name parent change =>
    cases parent with
    | none => exact hgrow name .none change
    | some place =>
      rw [Tenant.act, Tenant.act]
      rcases rel_cases (rel_getElem? h.length place) with ⟨hp, hp'⟩ | ⟨p, p', hp, hp', hpp⟩
      · rw [hp, hp']
        exact .error _
      · rw [hp, hp']
        exact hgrow name (.some hpp) change
  | destroy scope => exact h.same_destroy hown hown' (hscope scope)
  | setDefault scope =>
    exact .ok _ (h.of_get?_eq (fun a _ => get?_setDefault ..) (fun b _ => get?_setDefault ..))
  | define name value => exact h.same_define _ value
  | update name value => exact h.same_update _ value
  | lookup name =>
    rw [Tenant.act, Tenant.act, h.lookup_eq]
    cases m'.table.lookup w' name with
    | error e => exact .error e
    | ok v => exact .ok _ h
  | first =>
    have hlive := h.live
    rw [Tenant.act, Tenant.act, Table.first, Table.first]
    generalize m.table.live = ids at hlive
    generalize m'.table.live = ids' at hlive
    cases hlive with
    | nil => exact .error _
    | cons hab _ =>
      rw [Except.map, Except.map, h.place_eq hab]
      exact .ok _ h
  | last =>
    have hlive := List.forall₂_reverse_iff.mpr h.live
    rw [Tenant.act, Tenant.act, Table.last, Table.last, List.getLast?_eq_head?_reverse,
      List.getLast?_eq_head?_reverse]
    generalize m.table.live.reverse = ids at hlive
    generalize m'.table.live.reverse = ids' at hlive
    cases hlive with
    | nil => exact .error _
    | cons hab _ =>
      simp only [List.head?_cons, Except.map, h.place_eq hab]
      exact .ok _ h

end Alike

/-! ## A run with the other tables and a run without them -/

/-- Two states of separate tables: in the second there is at most the table `i`, and it is like
the one in the first. -/
structure Mirrors (i : Nat) (s s' : Tenancy) : Prop where
  separate : s.Separate
  separate' : s'.Separate
  alone : ∀ j, j ≠ i → s'.tenants j = none
  alike : Option.Rel (Alike s.world s'.world) (s.tenants i) (s'.tenants i)

namespace Mirrors

variable {i : Nat} {s s' : Tenancy}

theorem start (i : Nat) : Mirrors i .start .start :=
  ⟨Tenancy.separate_start, Tenancy.separate_start, fun _ _ => rfl, .none⟩

theorem view?_eq (h : Mirrors i s s') : s.view? i = s'.view? i := by
  rw [Tenancy.view?, Tenancy.view?]
  rcases rel_cases h.alike with ⟨hm, hm'⟩ | ⟨m, m', hm, hm', halike⟩
  · rw [hm, hm']
    rfl
  · rw [hm, hm']
    exact congrArg some halike.view_eq

/-- An operation on another table is not seen. -/
theorem other (h : Mirrors i s s') {j : Nat} (hij : i ≠ j) (op : Operation) :
    Mirrors i (s.after (j, op)) s' := by
  refine { h with separate := h.separate.after (j, op), alike := ?_ }
  rw [Tenancy.after]
  split
  case h_2 => exact h.alike
  case h_1 a w m houtcome =>
    have hmoved := Tenancy.moved_of_outcome h.separate houtcome
    -- what the other table touched is its own, so none of it is of the table `i`
    have hkept : ∀ id ∈ (s.tenant i).made, w.get? id = s.world.get? id := fun id hid =>
      hmoved.elsewhere id ((h.separate.own i).made_lt id hid) (h.separate.apart i j hij id hid)
    rw [Tenancy.tenants_put_of_ne hij]
    rcases rel_cases h.alike with ⟨hm, hm'⟩ | ⟨m₀, m', hm, hm', halike⟩
    · rw [hm, hm']
      exact .none
    · rw [Tenancy.tenant_of_eq_some hm] at hkept
      rw [hm, hm']
      exact .some (halike.of_get?_eq hkept fun _ _ => rfl)

/-- A handle stands for paired scopes if it is one of the table `i`; if not, it stands for none
of its scopes. -/
theorem paired (h : Mirrors i s s') {m m' : Tenant} (hm : s.tenants i = some m)
    (hm' : s'.tenants i = some m') (hlength : m.made.length = m'.made.length) (handle : Handle) :
    Paired m m' (s.scope? handle) (s'.scope? handle) := by
  by_cases htable : handle.table = i
  · rw [Tenancy.scope?, Tenancy.scope?, htable, hm, hm']
    exact .inl (rel_getElem? hlength _)
  · refine .inr ⟨fun id hid hmade => ?_, fun id hid => ?_⟩
    · obtain ⟨m₀, hm₀, hid⟩ := Option.bind_eq_some_iff.mp hid
      refine h.separate.apart handle.table i htable id ?_ ?_
      · rw [Tenancy.tenant_of_eq_some hm₀]
        exact List.mem_of_getElem? hid
      · rw [Tenancy.tenant_of_eq_some hm]
        exact hmade
    · rw [Tenancy.scope?, h.alone handle.table htable] at hid
      cases hid

theorem same_outcome (h : Mirrors i s s') (op : Operation) :
    SameOutcome (s.outcome i op) (s'.outcome i op) := by
  rcases rel_cases h.alike with ⟨hm, hm'⟩ | ⟨m, m', hm, hm', halike⟩
  · rw [Tenancy.outcome, Tenancy.outcome, hm, hm']
    cases op with
    | create =>
      -- both tables are new: a root without a parent, since none is in force
      have hroot := (Alike.blank s.world s'.world).grow h.separate.baseDefault
        h.separate'.baseDefault (by simp [Tenant.blank]) (by simp [Tenant.blank]) "root" .none true
      exact .ok _ (hroot.of_get?_eq (fun _ _ => rfl) (fun _ _ => rfl))
    | _ => exact .error _
  · have hown := h.separate.own i
    have hown' := h.separate'.own i
    rw [Tenancy.tenant_of_eq_some hm] at hown
    rw [Tenancy.tenant_of_eq_some hm'] at hown'
    rw [Tenancy.outcome, Tenancy.outcome, hm, hm']
    exact halike.same_act hown hown' h.separate.baseDefault h.separate'.baseDefault
      (h.paired hm hm' halike.length) op

/-- An operation on the table itself answers the same in both. -/
theorem own (h : Mirrors i s s') (op : Operation) :
    s.answer (i, op) = s'.answer (i, op) ∧ Mirrors i (s.after (i, op)) (s'.after (i, op)) := by
  have hseparate := h.separate.after (i, op)
  have hseparate' := h.separate'.after (i, op)
  have hsame := h.same_outcome op
  rw [Tenancy.after] at hseparate hseparate'
  rw [Tenancy.answer, Tenancy.answer, Tenancy.after, Tenancy.after]
  dsimp only at hseparate hseparate' ⊢
  generalize s.outcome i op = x at hsame hseparate
  generalize s'.outcome i op = x' at hsame hseparate'
  cases hsame with
  | error e => exact ⟨rfl, h⟩
  | ok a halike =>
    refine ⟨rfl, hseparate, hseparate', fun j hji => ?_, ?_⟩
    · exact (Tenancy.tenants_put_of_ne hji ..).trans (h.alone j hji)
    · rw [Tenancy.tenants_put_self, Tenancy.tenants_put_self]
      exact .some halike

/-- Over a whole run: the answers to the operations on a table, and the table after it. -/
theorem run (h : Mirrors i s s') (es : List (Nat × Operation)) :
    (s.answers es).filter (fun a => a.1 = i) = s'.answers (es.filter fun e => e.1 = i) ∧
      Mirrors i (s.run es) (s'.run (es.filter fun e => e.1 = i)) := by
  -- on the operations of the longer run; the other run takes a step only with the table `i`
  induction es generalizing s s' with
  | nil => exact ⟨rfl, h⟩
  | cons e es ih =>
    obtain ⟨j, op⟩ := e
    by_cases hji : j = i
    · subst hji
      obtain ⟨hanswer, hmirrors⟩ := h.own op
      obtain ⟨hanswers, hrun⟩ := ih hmirrors
      rw [List.filter_cons_of_pos (by simp), Tenancy.answers, Tenancy.answers,
        List.filter_cons_of_pos (by simp), hanswer, hanswers]
      exact ⟨rfl, hrun⟩
    · obtain ⟨hanswers, hrun⟩ := ih (h.other (Ne.symm hji) op)
      rw [List.filter_cons_of_neg (by simpa using hji), Tenancy.answers,
        List.filter_cons_of_neg (by simpa using hji)]
      exact ⟨hanswers, hrun⟩

end Mirrors

/-- Tables do not interfere. In every run of operations on any number of tables, the operations
on one of them give the answers and the errors that they give in the run without the others,
and the table ends the same: its current and live scopes, and the name, the parent and the
bindings of each scope that it made. -/
theorem tables_do_not_interfere (es : List (Nat × Operation)) (i : Nat) :
    (Tenancy.start.answers es).filter (fun a => a.1 = i) =
      Tenancy.start.answers (es.filter fun e => e.1 = i) ∧
    (Tenancy.start.run es).view? i = (Tenancy.start.run (es.filter fun e => e.1 = i)).view? i := by
  obtain ⟨hanswers, hrun⟩ := (Mirrors.start i).run es
  exact ⟨hanswers, hrun.view?_eq⟩

example : Tenancy.start.answers [(0, .create), (1, .create), (0, .define "x" (.int 1)),
    (1, .lookup "x"), (0, .lookup "x")] =
      [(0, .ok .nothing), (1, .ok .nothing), (0, .ok .nothing),
        (1, .error (.undefinedName "x")), (0, .ok (.value (.int 1)))] :=
  rfl

end ProgramTree.Scope
