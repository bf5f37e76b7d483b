/-
What a look finds.

A look has an outcome and leaves cursor moves behind. The statements about
conversions and source texts are about outcomes alone, and the moves only get in
the way of them. `Look.run` forgets the moves. It turns sequences of looks into
sequences of outcomes (`run_bind`), so each reader of the store gets one equation
for its outcome here, and nothing after this file opens a look again.

The second half says what a walk meets. A container keeps its nodes in a list of
its own, so `Contains` covers lists, tuples, sets and containers alike, and
`run_forEach` is the one fact about walks that everything else uses. Where only some
of an outcome matters, `Yields` follows it through a sequence of looks.
-/
import ProgramTree.Build.Collections

namespace ProgramTree

namespace Store

/-- The node that a value holds. -/
def nodeOf? (s : Store) : Value → Option Node
  | .ref a => s.node? a
  | _ => none

/-- The form of the node that a value holds. -/
def formOf? (s : Store) (v : Value) : Option Form :=
  (s.nodeOf? v).map Node.form

theorem node?_eq_some {s : Store} {a : Address} {n : Node} :
    s.node? a = some n ↔ s.cell? a = some (.node n) := by
  rw [node?]
  constructor
  · intro h
    split at h
    · next m hm => rw [hm, Option.some.inj h]
    · cases h
  · intro h
    rw [h]

/-- A value with a form refers to a cell. -/
theorem ref_of_formOf? {s : Store} {v : Value} {g : Form} (h : s.formOf? v = some g) :
    ∃ a, v = .ref a ∧ a < s.cells.size := by
  cases v with
  | ref a =>
    refine ⟨a, rfl, Nat.lt_of_not_le fun hle => ?_⟩
    have hnone : s.cell? a = none := Array.getElem?_eq_none hle
    simp [formOf?, nodeOf?, node?, hnone] at h
  | _ => exact absurd h (by simp [formOf?, nodeOf?])

end Store

namespace Look

/-- The outcome of a look at a store, without its moves. -/
def run {α : Type} (x : Look α) (s : Store) : Except Fault α :=
  (x s).outcome

section Monad

variable {α β : Type} (s : Store)

/-! ## Sequences of looks -/

/-- A value goes on into what follows. -/
@[simp] theorem ok_bind (a : α) (f : α → Except Fault β) :
    (Except.ok a : Except Fault α).bind f = f a := rfl

/-- A fault ends what follows. -/
@[simp] theorem error_bind (e : Fault) (f : α → Except Fault β) :
    (Except.error e : Except Fault α).bind f = .error e := rfl

/-- A sequence succeeds exactly if each part of it does. The inversion that takes
a successful conversion apart. -/
theorem bind_eq_ok {x : Except Fault α} {f : α → Except Fault β} {b : β} :
    x.bind f = .ok b ↔ ∃ a, x = .ok a ∧ f a = .ok b := by
  cases x with
  | error e => simp
  | ok a => simp

@[simp] theorem run_pure (a : α) : run (pure a) s = .ok a := rfl

@[simp] theorem run_fail (e : Fault) : run (fail e : Look α) s = .error e := rfl

@[simp] theorem run_store : run store s = .ok s := rfl

@[simp] theorem run_move (m : Move) : run (move m) s = .ok () := rfl

@[simp] theorem run_ofOutcome (x : Except Fault α) : run (ofOutcome x) s = x := rfl

/-- Outcomes come one after the other as looks do. -/
@[simp] theorem run_bind (x : Look α) (f : α → Look β) :
    run (x >>= f) s = (run x s).bind fun a => run (f a) s := by
  show (Look.bind x f s).outcome = _
  unfold run Look.bind
  rcases x s with ⟨e | a, moves⟩
  · rfl
  · rfl

@[simp] theorem run_map (f : α → β) (x : Look α) :
    run (f <$> x) s = (run x s).bind fun a => .ok (f a) := by
  rw [map_eq_pure_bind, run_bind]
  rfl

/-- A rescue looks at the handler only after a fault. -/
@[simp] theorem run_rescue (x : Look α) (h : Fault → Look α) :
    run (rescue x h) s = match run x s with
      | .ok a => .ok a
      | .error e => run (h e) s := by
  unfold run rescue
  rcases x s with ⟨e | a, moves⟩
  · rfl
  · rfl

@[simp] theorem run_ite (c : Prop) [Decidable c] (x y : Look α) :
    run (if c then x else y) s = if c then run x s else run y s := by
  by_cases hc : c
  · rw [if_pos hc, if_pos hc]
  · rw [if_neg hc, if_neg hc]

/-- Outcomes of looks at each item of a list, in turn. -/
@[simp] theorem run_mapM (xs : List α) (f : α → Look β) :
    run (xs.mapM f) s = xs.mapM fun x => run (f x) s := by
  induction xs with
  | nil => rfl
  | cons x xs ih =>
    rw [List.mapM_cons, List.mapM_cons, run_bind]
    simp only [run_bind, run_pure, ih]
    rfl

/-- If every item goes well, so does the list of them. -/
theorem mapM_eq_ok {xs : List α} {f : α → Except Fault β} {g : α → β}
    (h : ∀ x ∈ xs, f x = .ok (g x)) : xs.mapM f = .ok (xs.map g) := by
  induction xs with
  | nil => rfl
  | cons x xs ih =>
    have hx : f x = .ok (g x) := h x (List.mem_cons_self ..)
    have hxs : xs.mapM f = .ok (xs.map g) := ih fun y hy => h y (List.mem_cons_of_mem _ hy)
    rw [List.mapM_cons, hx, hxs]
    rfl

/-- If a list of outcomes goes well, each of them does. -/
theorem mapM_inv {xs : List α} {f : α → Except Fault β} {ys : List β} (h : xs.mapM f = .ok ys) :
    ∀ y ∈ ys, ∃ x ∈ xs, f x = .ok y := by
  induction xs generalizing ys with
  | nil =>
    cases h
    simp
  | cons x xs ih =>
    rw [List.mapM_cons] at h
    obtain ⟨z, hz, hrest⟩ := bind_eq_ok.mp h
    obtain ⟨zs, hzs, hpure⟩ := bind_eq_ok.mp hrest
    cases hpure
    intro y hy
    rcases List.mem_cons.mp hy with rfl | hy
    · exact ⟨x, List.mem_cons_self .., hz⟩
    · obtain ⟨u, hu, hfu⟩ := ih hzs y hy
      exact ⟨u, List.mem_cons_of_mem _ hu, hfu⟩

end Monad

section Fields

variable {s : Store} {v w : Value} {f : Field}

/-! ## Nodes and fields -/

@[simp] theorem run_node? (v : Value) (s : Store) : run (node? v) s = .ok (s.nodeOf? v) := by
  cases v <;> rfl

@[simp] theorem run_isA (v : Value) (g : Form) (s : Store) :
    run (isA v g) s = .ok ((s.formOf? v).any fun h => h.isA g) := by
  simp only [isA, run_bind, run_node?, ok_bind, run_pure, Store.formOf?]
  cases s.nodeOf? v with
  | none => rfl
  | some n => rfl

theorem run_cell {a : Address} {c : Cell} (h : s.cell? a = some c) : run (cell a) s = .ok c := by
  simp only [cell, run_bind, run_store, ok_bind, h]
  rfl

/-- A field is a plain one, or it follows other fields. -/
theorem run_field_eq (v : Value) (f : Field) (s : Store) : run (field v f) s =
    match (s.formOf? v).bind fun g => g.computed? f with
    | some path => run (follow v path) s
    | none => run (plainField v f) s := by
  simp only [field, computedPath?, run_bind, run_node?, ok_bind, run_pure, Store.formOf?,
    Option.bind_map, Function.comp_def]
  cases (s.nodeOf? v).bind fun n => n.form.computed? f with
  | none => rfl
  | some path => rfl

/-- A field asked for with care: its value if there is one, and nothing if it is
missing. Only other faults come through. -/
@[simp] theorem run_field? (v : Value) (f : Field) (s : Store) :
    run (field? v f) s = match run (field v f) s with
      | .ok w => .ok (some w)
      | .error e => if e.category = .attribute then .ok none else .error e := by
  simp only [field?, run_rescue, run_bind]
  cases run (field v f) s with
  | ok w => rfl
  | error e => simp only [error_bind, run_ite, run_pure, run_fail]

@[simp] theorem run_has (v : Value) (f : Field) (s : Store) :
    run (has v f) s = (run (field? v f) s).bind fun o => .ok o.isSome := by
  simp only [has, run_bind, run_pure]

/-- A value that has all of some fields. -/
theorem run_hasAll {fields : List Field} (h : ∀ g ∈ fields, ∃ w, run (field v g) s = .ok w) :
    run (hasAll v fields) s = .ok true := by
  induction fields with
  | nil => rfl
  | cons g rest ih =>
    obtain ⟨w, hw⟩ := h g (List.mem_cons_self ..)
    have hrest := ih fun k hk => h k (List.mem_cons_of_mem _ hk)
    simp only [hasAll, run_bind, run_has, run_field?, hw, ok_bind, Option.isSome_some, run_ite,
      if_true, hrest]

/-- A node's own value of a field that is not computed is what the field reads as. -/
theorem run_field_of_get? {n : Node} (hn : s.nodeOf? v = some n)
    (hc : n.form.computed? f = none) (hw : n.get? f = some w) : run (field v f) s = .ok w := by
  cases v with
  | ref a => simp [field, computedPath?, plainField, hn, hc, hw]
  | _ => simp [Store.nodeOf?] at hn

/-- A field that a node lacks reads as what its form lends. -/
theorem run_field_of_lent? {n : Node} (hn : s.nodeOf? v = some n)
    (hc : n.form.computed? f = none) (hg : n.get? f = none) (hw : n.form.lent? f = some w) :
    run (field v f) s = .ok w := by
  cases v with
  | ref a => simp [field, computedPath?, plainField, hn, hc, hg, hw]
  | _ => simp [Store.nodeOf?] at hn

/-- A field that a node neither has nor is lent reads as missing. -/
theorem run_field?_of_missing {n : Node} (hn : s.nodeOf? v = some n)
    (hc : n.form.computed? f = none) (hw : n.get? f = none) (hl : n.form.lent? f = none)
    (ht : f ≠ .tempCount) : run (field? v f) s = .ok none := by
  cases v with
  | ref a =>
    simp [field, computedPath?, plainField, hn, hc, hw, hl, ht, lacks, typeName,
      run_cell (Store.node?_eq_some.mp hn), Fault.category]
  | _ => simp [Store.nodeOf?] at hn

/-- A field that is there is found. -/
theorem run_field?_of_ok (h : run (field v f) s = .ok w) : run (field? v f) s = .ok (some w) := by
  rw [run_field?, h]

theorem run_has_of_ok (h : run (field v f) s = .ok w) : run (has v f) s = .ok true := by
  rw [run_has, run_field?_of_ok h, ok_bind, Option.isSome_some]

/-- A field that is there and counts as true, or does not. -/
theorem run_truthyField?_of_ok {b : Bool} (h : run (field v f) s = .ok w)
    (hb : run (truthy w) s = .ok b) :
    run (truthyField? v f) s = .ok (if b then some w else none) := by
  simp only [truthyField?, run_bind, run_field?_of_ok h, ok_bind, hb]
  cases b <;> rfl

theorem run_truthyField?_of_none (h : run (field? v f) s = .ok none) :
    run (truthyField? v f) s = .ok none := by
  simp only [truthyField?, run_bind, h, ok_bind, run_pure]

end Fields

section Items

variable {β : Type} {s : Store} {v : Value} {l a : Address} {xs : List Value}

/-! ## What a walk meets -/

/-- The items of a list, a tuple or a set. -/
def sequence? : Cell → Option (List Value)
  | .list xs | .tuple xs | .set xs => some xs
  | _ => none

/-- A container: a node that keeps other nodes in a list of its own. -/
structure IsContainer (s : Store) (v : Value) (l : Address) (xs : List Value) : Prop where
  isNodeList : ((s.formOf? v).any fun g => g.isA .nodeList) = true
  nodes : run (field v .nodes) s = .ok (.ref l)
  items : s.cell? l = some (.list xs)

/-- The items of a list. -/
def listItems? : Cell → Option (List Value)
  | .list xs => some xs
  | _ => none

/-- The list of a container and what is in it. -/
def container? (s : Store) (v : Value) : Option (Address × List Value) :=
  if (s.formOf? v).any fun g => g.isA .nodeList then
    match run (field v .nodes) s with
    | .ok (.ref l) => ((s.cell? l).bind listItems?).map fun xs => (l, xs)
    | _ => none
  else none

/-- A walk over the value meets these items, whatever sort of collection it is. -/
inductive Contains (s : Store) : Value → List Value → Prop
  | plain {a : Address} {c : Cell} {xs : List Value} (h : s.cell? a = some c)
      (hc : sequence? c = some xs) : Contains s (.ref a) xs
  | container {v : Value} {l : Address} {xs : List Value} (h : IsContainer s v l xs) :
    Contains s v xs

theorem listItems?_eq_some {c : Cell} : listItems? c = some xs ↔ c = .list xs := by
  cases c <;> simp [listItems?]

/-- Whether a node is a container can be computed. -/
theorem isContainer_iff : IsContainer s v l xs ↔ container? s v = some (l, xs) := by
  constructor
  · intro h
    simp only [container?, h.isNodeList, if_true, h.nodes, h.items, Option.bind_some, listItems?,
      Option.map_some]
  · intro h
    simp only [container?] at h
    split at h
    · next hl =>
      split at h
      · next k hk =>
        obtain ⟨ys, hys, heq⟩ := Option.map_eq_some_iff.mp h
        obtain ⟨rfl, rfl⟩ := Prod.mk.inj heq
        obtain ⟨c, hc, hlist⟩ := Option.bind_eq_some_iff.mp hys
        exact ⟨hl, hk, by rw [hc, listItems?_eq_some.mp hlist]⟩
      · exact absurd h (by simp)
    · exact absurd h (by simp)

instance : Decidable (IsContainer s v l xs) :=
  decidable_of_iff _ isContainer_iff.symm

theorem contains_of_sequence? (h : (s.cell? a).bind sequence? = some xs) :
    Contains s (.ref a) xs := by
  obtain ⟨c, hc, hs⟩ := Option.bind_eq_some_iff.mp h
  exact .plain hc hs

/-- A collection is no node, so in particular no container. -/
theorem nodeOf?_of_sequence {c : Cell} (h : s.cell? a = some c) (hc : sequence? c = some xs) :
    s.nodeOf? (.ref a) = none := by
  simp only [Store.nodeOf?, Store.node?, h]
  cases c with
  | node n => exact absurd hc (by simp [sequence?])
  | _ => rfl

theorem not_nodeList_of_sequence {c : Cell} (h : s.cell? a = some c)
    (hc : sequence? c = some xs) :
    ((s.formOf? (.ref a)).any fun g => g.isA .nodeList) = false := by
  simp only [Store.formOf?, nodeOf?_of_sequence h hc, Option.map_none, Option.any_none]

/-- The list of nodes is never a computed field. -/
theorem run_field_nodes (v : Value) (s : Store) :
    run (field v .nodes) s = run (plainField v .nodes) s := by
  have hc : ∀ g : Form, g.computed? .nodes = none := fun g => by
    simp [Form.computed?]
  simp only [field, computedPath?, run_bind, run_node?, ok_bind, run_pure]
  cases s.nodeOf? v with
  | none => rfl
  | some n => simp only [Option.bind_some, hc]

/-- What holds the items of something that is no container is the thing itself. -/
theorem run_holder_of_not (h : ((s.formOf? v).any fun g => g.isA .nodeList) = false) :
    run (holder v) s = .ok v := by
  simp only [holder, run_bind, run_store, ok_bind, holderTo, run_isA, h, Bool.false_eq_true,
    run_ite, if_false, run_pure]

/-- What holds the items of a container is its list. The list is no container
again, so two steps of the search are enough. -/
theorem IsContainer.run_holder (h : IsContainer s v l xs) : run (holder v) s = .ok (.ref l) := by
  have hl := not_nodeList_of_sequence h.items rfl
  have hn : run (plainField v .nodes) s = .ok (.ref l) := by
    rw [← run_field_nodes]
    exact h.nodes
  have hlt : l < s.cells.size := (Array.getElem?_eq_some_iff.mp h.items).1
  obtain ⟨k, hk⟩ := Nat.exists_eq_add_one_of_ne_zero (Nat.ne_zero_of_lt hlt)
  simp only [holder, run_bind, run_store, ok_bind, hk, holderTo, run_isA, h.isNodeList, run_ite,
    if_true, hn, hl, Bool.false_eq_true, if_false, run_pure]

theorem run_plainItems {c : Cell} (h : s.cell? a = some c) (hc : sequence? c = some xs) :
    run (plainItems (.ref a)) s = .ok xs := by
  simp only [plainItems, run_bind, run_cell h, ok_bind]
  cases c with
  | list ys | tuple ys | set ys =>
    rw [run_pure, Option.some.inj hc]
  | node n => exact absurd hc (by simp [sequence?])
  | dict es => exact absurd hc (by simp [sequence?])

theorem run_plainLength (h : run (plainItems v) s = .ok xs) :
    run (plainLength v) s = .ok xs.length := by
  simp only [plainLength, run_rescue, run_bind, h, ok_bind, run_pure]

theorem Contains.run_length (h : Contains s v xs) : run (length v) s = .ok xs.length := by
  cases h with
  | plain hc hs =>
    simp only [length, run_bind, run_holder_of_not (not_nodeList_of_sequence hc hs), ok_bind]
    exact run_plainLength (run_plainItems hc hs)
  | container hc =>
    simp only [length, run_bind, hc.run_holder, ok_bind]
    exact run_plainLength (run_plainItems hc.items rfl)

/-- A collection counts as true exactly if something is in it. -/
theorem Contains.run_truthy (h : Contains s v xs) :
    run (truthy v) s = .ok (xs.length != 0) := by
  have hlen := h.run_length
  cases h with
  | plain hc hs =>
    simp only [truthy, run_bind, run_node?, nodeOf?_of_sequence hc hs, ok_bind, hlen, run_pure]
  | container hc =>
    have hl := hc.isNodeList
    cases v with
    | ref a =>
      cases hn : s.nodeOf? (.ref a) with
      | none => simp [Store.formOf?, hn] at hl
      | some n =>
        simp only [Store.formOf?, hn, Option.map_some, Option.any_some] at hl
        simp only [truthy, run_bind, run_node?, hn, ok_bind, hl, if_true, hlen, run_pure]
    | _ => simp [Store.formOf?, Store.nodeOf?] at hl

/-- A node that is no container counts as true. -/
theorem run_truthy_of_form {g : Form} (h : s.formOf? v = some g) (hg : g.isA .nodeList = false) :
    run (truthy v) s = .ok true := by
  obtain ⟨n, hn, rfl⟩ := Option.map_eq_some_iff.mp h
  cases v with
  | ref a =>
    simp only [truthy, run_bind, run_node?, hn, ok_bind, hg, Bool.false_eq_true, if_false, run_pure]
  | _ => exact absurd hn (by simp [Store.nodeOf?])

/-- The first item of a container. -/
theorem IsContainer.run_item_zero {x : Value} (h : IsContainer s v l (x :: xs)) :
    run (item v 0) s = .ok x := by
  simp only [item, itemAt, run_bind, h.run_holder, ok_bind, plainItem, run_cell h.items, pick,
    indexOf, run_pure, run_ite]
  rfl

/-- An item of a container by its index. -/
theorem IsContainer.run_item (h : IsContainer s v l xs) {i : Nat} (hi : i < xs.length) :
    run (item v i) s = .ok xs[i] := by
  simp only [item, itemAt, run_bind, h.run_holder, ok_bind, plainItem, run_cell h.items, pick,
    indexOf, run_pure, run_ite]
  rw [if_neg (by omega), if_neg (by omega), Int.toNat_natCast, List.getElem?_eq_getElem hi]
  rfl

/-- The first item of a list. -/
theorem run_item_zero {x : Value} (h : s.cell? a = some (.list (x :: xs))) :
    run (item (.ref a) 0) s = .ok x := by
  simp only [item, itemAt, run_bind, run_holder_of_not (not_nodeList_of_sequence h rfl), ok_bind,
    plainItem, run_cell h, pick, indexOf, run_pure, run_ite]
  rfl

/-! ## Walks -/

/-- Leaving a cursor somewhere always works. -/
@[simp] theorem run_leave (v : Value) (i : Nat) (s : Store) : run (leave v i) s = .ok () := by
  cases v with
  | ref a =>
    simp only [leave, run_bind, run_isA, ok_bind, run_ite, run_move, run_pure, ite_self]
  | _ => rfl

/-- A walk does its work on each item in turn. The induction is on the items still
to come, so the number of those done is general. -/
theorem run_walkFrom (body : Value → Look β) (i : Nat) :
    run (walkFrom v body i (xs.map pure)) s = xs.mapM fun x => run (body x) s := by
  induction xs generalizing i with
  | nil =>
    simp only [List.map_nil, walkFrom, run_bind, run_leave, ok_bind, run_pure, List.mapM_nil]
    rfl
  | cons x xs ih =>
    rw [List.map_cons, walkFrom, List.mapM_cons, run_bind, run_rescue]
    simp only [pure_bind]
    cases hx : run (body x) s with
    | error e => simp only [run_bind, run_leave, ok_bind, run_fail, error_bind]; rfl
    | ok y => simp only [ok_bind, run_bind, run_pure, ih]; rfl

theorem Contains.run_slots (h : Contains s v xs) : run (slots v) s = .ok (xs.map pure) := by
  have hlen := h.run_length
  cases h with
  | plain hc hs =>
    simp only [slots, run_bind, run_isA, not_nodeList_of_sequence hc hs, ok_bind,
      Bool.false_eq_true, run_ite, if_false, run_plainItems hc hs, run_pure]
  | container hc =>
    simp only [slots, run_bind, run_isA, hc.isNodeList, ok_bind, run_ite, if_true, run_rescue,
      hlen, hc.run_holder, isSequence, run_cell hc.items, run_pure, run_plainItems hc.items rfl]

/-- **Walks.** A walk over a collection gives the outcomes of its items in their
order, and fails at the first item that does. -/
theorem Contains.run_forEach (h : Contains s v xs) (body : Value → Look β) :
    run (forEach v body) s = xs.mapM fun x => run (body x) s := by
  simp only [forEach, run_bind, h.run_slots, ok_bind]
  exact run_walkFrom body 0

/-- A walk on which every item goes well. -/
theorem Contains.run_forEach_ok {body : Value → Look β} {g : Value → β} (h : Contains s v xs)
    (hb : ∀ x ∈ xs, run (body x) s = .ok (g x)) : run (forEach v body) s = .ok (xs.map g) := by
  rw [h.run_forEach]
  exact mapM_eq_ok hb

end Items

/-! ## What looks give -/

/-- All that a look can give passes a test. -/
def Yields {α : Type} (s : Store) (x : Look α) (Q : α → Prop) : Prop :=
  ∀ a, run x s = .ok a → Q a

section Yields

variable {α β : Type} {s : Store} {x : Look α} {P : α → Prop} {Q : β → Prop}

theorem yields_pure {b : β} (h : Q b) : Yields s (pure b) Q := by
  intro c hc
  obtain rfl := Except.ok.inj hc
  exact h

theorem yields_fail (e : Fault) : Yields s (fail e : Look β) Q :=
  fun _ h => by cases h

theorem Yields.bind {f : α → Look β} (hx : Yields s x P) (hf : ∀ a, P a → Yields s (f a) Q) :
    Yields s (x >>= f) Q := by
  intro b hb
  rw [run_bind] at hb
  obtain ⟨a, ha, hb⟩ := bind_eq_ok.mp hb
  exact hf a (hx a ha) b hb

/-- What comes after a look whose outcome does not matter. -/
theorem yields_after {f : α → Look β} (hf : ∀ a, Yields s (f a) Q) : Yields s (x >>= f) Q :=
  Yields.bind (P := fun _ => True) (fun _ _ => trivial) fun a _ => hf a

/-- What comes after a look whose outcome is known. -/
theorem yields_known {a : α} {f : α → Look β} (ha : run x s = .ok a) (hf : Yields s (f a) Q) :
    Yields s (x >>= f) Q :=
  Yields.bind (P := fun b => b = a) (fun _ hb => Except.ok.inj (hb.symm.trans ha))
    fun _ hb => hb ▸ hf

theorem Yields.rescue {y : Look β} {h : Fault → Look β} (hy : Yields s y Q)
    (hh : ∀ e, Yields s (h e) Q) : Yields s (rescue y h) Q := by
  intro b hb
  rw [run_rescue] at hb
  split at hb
  · next c hc =>
    obtain rfl := Except.ok.inj hb
    exact hy c hc
  · next e _ => exact hh e b hb

theorem Yields.ite {c : Prop} [Decidable c] {y z : Look β} (hy : Yields s y Q)
    (hz : Yields s z Q) : Yields s (if c then y else z) Q := by
  by_cases hc : c
  · rw [if_pos hc]
    exact hy
  · rw [if_neg hc]
    exact hz

theorem Yields.mono {y : Look β} {R : β → Prop} (h : Yields s y Q) (hQ : ∀ b, Q b → R b) :
    Yields s y R :=
  fun b hb => hQ b (h b hb)

theorem yields_mapM {xs : List α} {f : α → Look β} (hf : ∀ a, Yields s (f a) Q) :
    Yields s (xs.mapM f) fun ys => ∀ y ∈ ys, Q y := by
  induction xs with
  | nil => exact yields_pure (by simp)
  | cons a rest ih =>
    rw [List.mapM_cons]
    refine (hf a).bind fun y hy => ih.bind fun ys hys => yields_pure ?_
    intro z hz
    rcases List.mem_cons.mp hz with rfl | hz
    · exact hy
    · exact hys z hz

end Yields

end Look

end ProgramTree
