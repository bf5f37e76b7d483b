/-
What constructors leave of the nodes that were there.

A constructor makes a node and fills it, and makes types and other small things on the
way. None of that touches a node that was there before, so whatever is known of older
nodes stays known. Two facts are needed of each constructor: what it puts into the new
node, and that it spares the others. Both come from one notion. `Pins b K x` says that a
build keeps a property of the node at an address, if it goes well: for an older node the
property is to be just that node, for the new one it is to have the fields that were set.

Filling a binary operator may make further operators for the comparison of types, and
these again, so the argument for it is an induction on how often.
-/
import ProgramTree.Proofs.Modules
import ProgramTree.Proofs.Returned

namespace ProgramTree

namespace Store

variable {s : Store} {a b : Address} {n : Node}

/-! ## Nodes at addresses -/

/-- The node at an address has a property. -/
def Pinned (s : Store) (b : Address) (K : Node → Prop) : Prop :=
  ∃ n, s.node? b = some n ∧ K n

/-- All nodes are there as they were. -/
def Kept (s s' : Store) : Prop :=
  ∀ b n, s.node? b = some n → s'.node? b = some n

variable {K : Node → Prop}

theorem Pinned.kept {s' : Store} (h : s.Pinned b K) (hkept : s.Kept s') : s'.Pinned b K := by
  obtain ⟨n, hn, hK⟩ := h
  exact ⟨n, hkept b n hn, hK⟩

/-- A new cell is at an address of its own. -/
theorem Pinned.push (h : s.Pinned b K) (c : Cell) : (s.push c).Pinned b K := by
  obtain ⟨n, hn, hK⟩ := h
  have hcell := node?_eq_some.mp hn
  have hlt : b < s.nextAddress := (Array.getElem?_eq_some_iff.mp hcell).1
  exact ⟨n, node?_eq_some.mpr ((cell?_push_of_lt s c b hlt).trans hcell), hK⟩

/-- A change of a node matters to a property of that node only. -/
theorem Pinned.updateNode (h : s.Pinned b K) {f : Node → Node} (hf : a = b → ∀ n, K n → K (f n)) :
    (s.updateNode a f).Pinned b K := by
  obtain ⟨n, hn, hK⟩ := h
  have hcell := node?_eq_some.mp hn
  by_cases hab : a = b
  · subst hab
    exact ⟨f n, node?_eq_some.mpr (cell?_updateNode_self hcell f), hf rfl n hK⟩
  · refine ⟨n, node?_eq_some.mpr ?_, hK⟩
    rw [cell?_updateNode_of_ne (Ne.symm hab)]
    exact hcell

/-- A list is no node, so changing one leaves the nodes. -/
theorem Pinned.replace_list (h : s.Pinned b K) {xs ys : List Value}
    (ha : s.cell? a = some (.list xs)) : (s.replace a (.list ys)).Pinned b K := by
  obtain ⟨n, hn, hK⟩ := h
  have hcell := node?_eq_some.mp hn
  have hab : b ≠ a := by
    rintro rfl
    rw [ha] at hcell
    cases hcell
  refine ⟨n, node?_eq_some.mpr ?_, hK⟩
  rw [cell?_replace_of_ne s a b _ hab]
  exact hcell

end Store

namespace Node

variable {n : Node} {form : Form} {fields rest : List (Field × Value)}

/-- The node has a form and some fields. -/
def Has (n : Node) (form : Form) (fields : List (Field × Value)) : Prop :=
  n.form = form ∧ ∀ e ∈ fields, n.get? e.1 = some e.2

/-- Setting another field leaves those that a node has. -/
theorem Has.set (h : n.Has form fields) {f : Field} {v : Value} (hf : ∀ e ∈ fields, e.1 ≠ f) :
    (n.set f v).Has form fields := by
  refine ⟨h.1, fun e he => ?_⟩
  rw [get?_set, if_neg (hf e he)]
  exact h.2 e he

/-- Fields that are set one after the other are there in the end, if they are distinct. The
induction is on the fields still to come. -/
theorem Has.foldl (h : n.Has form fields) (hdistinct : (rest.map Prod.fst).Nodup)
    (hnew : ∀ e ∈ fields, e.1 ∉ rest.map Prod.fst) :
    (rest.foldl (fun n e => n.set e.1 e.2) n).Has form (fields ++ rest) := by
  induction rest generalizing n fields with
  | nil => simpa using h
  | cons d rest ih =>
    rw [List.map_cons, List.nodup_cons] at hdistinct
    have hset : (n.set d.1 d.2).Has form (fields ++ [d]) := by
      refine ⟨h.1, fun e he => ?_⟩
      rcases List.mem_append.mp he with he | he
      · exact (h.set fun e he heq => hnew e he (by simp [heq])).2 e he
      · rw [List.mem_singleton.mp he, get?_set, if_pos rfl]
    have hrest : ∀ e ∈ fields ++ [d], e.1 ∉ rest.map Prod.fst := by
      intro e he hmem
      rcases List.mem_append.mp he with he | he
      · exact hnew e he (List.mem_cons_of_mem _ hmem)
      · rw [List.mem_singleton.mp he] at hmem
        exact hdistinct.1 hmem
    have hall := ih hset hdistinct.2 hrest
    rwa [List.append_assoc] at hall

end Node

namespace Build

open Look

variable {α β : Type} {s s' : Store} {a b : Address} {K : Node → Prop} {x : Build α}

/-! ## Builds that go well -/

/-- A sequence goes well exactly if each part of it does. -/
theorem andThen_eq_ok {f : α → Build β} {r : β} :
    (x >>= f) s = (.ok r, s') ↔ ∃ w t, x s = (.ok w, t) ∧ f w t = (.ok r, s') := by
  show Build.bind x f s = _ ↔ _
  rw [Build.bind]
  rcases x s with ⟨e | w, t⟩
  · simp
  · simp

theorem eq_of_fst_eq_ok {r : α} (h : (x s).1 = .ok r) : x s = (.ok r, (x s).2) :=
  Prod.ext h rfl

/-- A sequence goes on from where its first part ends. -/
theorem andThen_of_eq {f : α → Build β} {w : α} {t : Store} (h : x s = (.ok w, t)) :
    (x >>= f) s = f w t := by
  show Build.bind x f s = _
  rw [Build.bind, h]

/-- A build keeps a property of the node at an address, if it goes well. -/
def Pins (b : Address) (K : Node → Prop) (x : Build α) : Prop :=
  ∀ s r s', x s = (.ok r, s') → s.Pinned b K → s'.Pinned b K

theorem pins_pure (r : α) : Pins b K (pure r) := by
  intro s r' s' h hs
  cases h
  exact hs

theorem Pins.bind {f : α → Build β} (hx : Pins b K x) (hf : ∀ w, Pins b K (f w)) :
    Pins b K (x >>= f) := by
  intro s r s' h hs
  obtain ⟨w, t, hxs, hfs⟩ := andThen_eq_ok.mp h
  exact hf w t r s' hfs (hx s w t hxs hs)

/-- A build that never goes well. -/
def Fails (x : Build α) : Prop :=
  ∀ s r s', x s ≠ (.ok r, s')

theorem fails_fail (e : Fault) : Fails (fail e : Build α) := by
  intro s r s' h
  cases h

theorem Fails.after {f : α → Build β} (hf : ∀ w, Fails (f w)) (x : Build α) : Fails (x >>= f) := by
  intro s r s' h
  obtain ⟨w, t, -, hfs⟩ := andThen_eq_ok.mp h
  exact hf w t r s' hfs

/-- What never goes well keeps anything. -/
theorem Fails.pins (hx : Fails x) : Pins b K x := fun s r s' h =>
  absurd h (hx s r s')

/-- Looking around changes nothing. -/
theorem pins_look {x : Look α} (hx : Still x) : Pins b K (look x) := by
  intro s r s' h hs
  rw [hx.look_eq] at h
  obtain ⟨-, rfl⟩ := Prod.mk.inj h
  exact hs

theorem pins_tempName : Pins b K tempName := by
  intro s r s' h hs
  cases h
  exact hs

theorem pins_literalRef : Pins b K literalRef := by
  intro s r s' h hs
  cases h
  exact hs

/-- What is made is at an address of its own, and what is done with it is done there. -/
theorem pins_new_bind (c : Cell) {f : Address → Build β} (hf : ∀ a, a ≠ b → Pins b K (f a)) :
    Pins b K (new c >>= f) := by
  intro s r s' h hs
  obtain ⟨w, t, hnew, hfs⟩ := andThen_eq_ok.mp h
  cases hnew
  refine hf s.nextAddress ?_ _ r s' hfs (hs.push c)
  -- The pinned node was there before, and the new address was not in use.
  rintro rfl
  obtain ⟨n, hn, -⟩ := hs
  exact absurd (Array.getElem?_eq_some_iff.mp (Store.node?_eq_some.mp hn)).1 (Nat.lt_irrefl _)

theorem pins_setField {f : Field} {v : Value} (h : a = b → ∀ n, K n → K (n.set f v)) :
    Pins b K (setField a f v) := by
  intro s r s' hset hs
  cases hset
  exact hs.updateNode h

theorem pins_setFields {fields : List (Field × Value)}
    (h : a = b → ∀ n, K n → K (fields.foldl (fun n e => n.set e.1 e.2) n)) :
    Pins b K (setFields a fields) := by
  intro s r s' hset hs
  cases hset
  exact hs.updateNode h

/-- A look at a cell finds what is there. -/
theorem cell?_of_look {l : Address} {c : Cell} (h : look (cell l) s = (.ok c, s')) :
    s.cell? l = some c ∧ s' = s := by
  rw [(still_cell l).look_eq] at h
  obtain ⟨hrun, rfl⟩ := Prod.mk.inj h
  simp only [cell, run_bind, run_store, ok_bind] at hrun
  cases hcell : s.cell? l with
  | none =>
    rw [hcell] at hrun
    cases hrun
  | some d =>
    rw [hcell] at hrun
    cases hrun
    exact ⟨rfl, rfl⟩

theorem pins_appendItem (v x : Value) : Pins b K (appendItem v x) := by
  have hlacks : ∀ v, Pins b K (look (lacks v "append" : Look Unit)) := fun v =>
    pins_look (still_lacks v _)
  cases v with
  | ref l =>
    intro s r s' h hs
    obtain ⟨c, t, hcell, hrest⟩ := andThen_eq_ok.mp h
    obtain ⟨hc, rfl⟩ := cell?_of_look hcell
    cases c with
    | list items =>
      cases hrest
      exact hs.replace_list hc
    | node | tuple | set | dict => exact hlacks (.ref l) t r s' hrest hs
  | none => exact hlacks .none
  | bool c => exact hlacks (.bool c)
  | int k => exact hlacks (.int k)
  | float d => exact hlacks (.float d)
  | text t => exact hlacks (.text t)
  | member m => exact hlacks (.member m)

/-- Adding to a container changes its list and no node. -/
theorem pins_append (v x : Value) : Pins b K (append v x) :=
  (pins_look (still_holder v)).bind fun w => pins_appendItem w x

/-! ## Parts of constructors -/

/-- A node that is started gets fields, and joins its parent. -/
theorem pins_startNode (hset : a = b → ∀ n f v, K n → K (n.set f v)) (args : Arguments) :
    Pins b K (startNode a args) := by
  refine (pins_setFields fun hab n hn => ?_).bind fun _ => ?_
  · -- Fields are set one after the other, and each of them keeps the property.
    generalize Shared.baseFields _ _ = fields
    induction fields generalizing n with
    | nil => exact hn
    | cons e fields ih => exact ih _ (hset hab n e.1 e.2 hn)
  · split
    · exact pins_append _ _
    · exact pins_pure _

theorem pins_newBare (form : Form) : Pins b K (newBare form) :=
  pins_new_bind _ fun _ ha =>
    (pins_startNode (fun hab => absurd hab ha) []).bind fun _ => pins_pure _

theorem pins_startType (hset : a = b → ∀ n f v, K n → K (n.set f v)) (args : Arguments) :
    Pins b K (startType a args) := by
  refine (pins_startNode hset args).bind fun _ => ?_
  refine pins_tempName.bind fun name => ?_
  refine (pins_setField fun hab n => hset hab n _ _).bind fun _ => ?_
  refine (pins_newBare _).bind fun type => ?_
  exact pins_setField fun hab n => hset hab n _ _

theorem pins_startForm (hset : a = b → ∀ n f v, K n → K (n.set f v)) (form : Form)
    (args : Arguments) : Pins b K (startForm a form args) := by
  rw [startForm]
  split
  · exact pins_startType hset args
  · exact pins_startNode hset args

theorem pins_newType (form : Form) : Pins b K (newType form) := by
  rw [newType]
  split
  · exact (fails_fail _).pins
  · refine pins_new_bind _ fun a ha => ?_
    exact (pins_startForm (fun hab => absurd hab ha) form _).bind fun _ => pins_pure _

theorem pins_giveType {type : Option Form} (hset : a = b → ∀ n v, K n → K (n.set .type v)) :
    Pins b K (giveType a type) := by
  cases type with
  | none => exact pins_pure _
  | some form => exact (pins_newType form).bind fun _ => pins_setField fun hab n => hset hab n _

/-! ## Binary operators -/

/-- The last part of filling a binary operator: its type, once it is known whether the
types of the operands are data types. -/
def typeFrom (fuel : Nat) (a : Address) (rhs left : Value) (typed : Bool) : Build Unit := do
  let right ← Look.field rhs .type
  if !typed then fail (.operandTypes (← Look.text left) (← Look.text right))
  else if (← overloads left) || (← overloads right) then
    let c ← new (.node ⟨.binaryOp, 0, []⟩)
    startType c []
    if ← asksRight left right then fillBinary fuel c (.text "==") right left
    else fillBinary fuel c (.text "==") left right
    setField a .type left
  else if left = right then setField a .type left
  else setField a .type (← widerType left right)

/-- What filling a binary operator does after the operands are in their fields. -/
def typeOperator (fuel : Nat) (a : Address) (lhs rhs : Value) : Build Unit := do
  let left ← Look.field lhs .type
  if ← Look.isA left .dataType then
    let typed ← Look.isA (← Look.field rhs .type) .dataType
    typeFrom fuel a rhs left typed
  else
    let typed ← pure false
    typeFrom fuel a rhs left typed

/-- The fields that a binary operator is filled with first. -/
def operatorFields (op lhs rhs : Value) : List (Field × Value) :=
  [(.opCode, op), (.lhs, lhs), (.rhs, rhs), (.kind, .member (.kind .binaryOp))]

theorem fillBinary_succ (fuel : Nat) (a : Address) (op lhs rhs : Value) :
    fillBinary (fuel + 1) a op lhs rhs =
      (setFields a (operatorFields op lhs rhs) >>= fun _ => typeOperator fuel a lhs rhs) :=
  rfl

theorem still_field (v : Value) (f : Field) : Still (field v f) := by
  have hfollow : ∀ path v, Still (follow v path) := by
    intro path
    induction path with
    | nil => exact fun v => still_pure v
    | cons f path ih => exact fun v => (still_plainField v f).bind fun w => ih w
  refine ((still_node? v).bind fun _ => still_pure _).bind fun path => ?_
  cases path with
  | none => exact still_plainField v f
  | some path => exact hfollow path v

theorem still_asksRight (left right : Value) : Still (asksRight left right) := by
  refine (still_isA right _).bind fun c => ?_
  cases c with
  | false => exact still_pure _
  | true =>
    refine (still_node? left).bind fun m => ?_
    refine (still_node? right).bind fun n => ?_
    cases m with
    | none => exact still_pure _
    | some m =>
      cases n with
      | none => exact still_pure _
      | some n => exact still_pure _

theorem still_larger (x y : Value) : Still (larger x y) := by
  unfold larger
  split
  · exact still_pure _
  · exact still_pure _
  · split
    · exact still_pure _
    · exact (still_typeName x).bind fun _ => (still_typeName y).bind fun _ => still_fail _

theorem still_widerType (left right : Value) : Still (widerType left right) := by
  refine (still_field left _).bind fun m => ?_
  refine (still_field right _).bind fun n => ?_
  exact (still_larger n m).bind fun _ => still_pure _

/-- Giving an operator its type sets the type and nothing else in it, and fills operators
of its own besides. -/
theorem pins_typeOperator {fuel : Nat} (hset : a = b → ∀ n v, K n → K (n.set .type v))
    (hfill : ∀ c op l r, c ≠ b → Pins b K (fillBinary fuel c op l r)) (lhs rhs : Value) :
    Pins b K (typeOperator fuel a lhs rhs) := by
  have hgive : ∀ type, Pins b K (setField a .type type) := fun type =>
    pins_setField fun hab n => hset hab n type
  have hfrom : ∀ left typed, Pins b K (typeFrom fuel a rhs left typed) := by
    intro left typed
    refine (pins_look (still_field rhs _)).bind fun right => ?_
    split
    · exact (Fails.after (fun _ => Fails.after (fun _ => fails_fail _) _) _).pins
    · refine (pins_look (still_isA left _)).bind fun c => ?_
      refine (pins_look (still_isA right _)).bind fun d => ?_
      split
      · -- Types that overload operators are compared, which makes another operator.
        refine pins_new_bind _ fun e he => ?_
        refine (pins_startType (fun hab => absurd hab he) _).bind fun _ => ?_
        refine (pins_look (still_asksRight left right)).bind fun turned => ?_
        cases turned with
        | true => exact (hfill e _ _ _ he).bind fun _ => hgive left
        | false => exact (hfill e _ _ _ he).bind fun _ => hgive left
      · split
        · exact hgive left
        · exact (pins_look (still_widerType left right)).bind fun type => hgive type
  refine (pins_look (still_field lhs _)).bind fun left => ?_
  refine (pins_look (still_isA left _)).bind fun c => ?_
  split
  · refine (pins_look (still_field rhs _)).bind fun right => ?_
    exact (pins_look (still_isA right _)).bind fun typed => hfrom left typed
  · exact (pins_pure false).bind fun typed => hfrom left typed

/-- Filling an operator spares the other nodes. -/
theorem pins_fillBinary (fuel : Nat) {c : Address} (hc : c ≠ b) (op lhs rhs : Value) :
    Pins b K (fillBinary fuel c op lhs rhs) := by
  induction fuel generalizing c op lhs rhs with
  | zero => exact (fails_fail _).pins
  | succ fuel ih =>
    rw [fillBinary_succ]
    refine (pins_setFields fun hab => absurd hab hc).bind fun _ => ?_
    exact pins_typeOperator (fun hab => absurd hab hc) (fun _ op l r hd => ih hd op l r) lhs rhs

/-! ## New nodes -/

section Constructors

variable {form : Form} {fields old new : List (Field × Value)} {given : List (Field × Value)}
  {args : Arguments}

/-- A build fills a node: it spares the others, and if the node had some fields before then
it has some after. -/
def Fills (a : Address) (form : Form) (old new : List (Field × Value)) (x : Build α) : Prop :=
  (∀ b K, a ≠ b → Pins b K x) ∧ ∀ s r s', x s = (.ok r, s') →
    s.Pinned a (fun n => n.Has form old) → s'.Pinned a fun n => n.Has form new

theorem Fills.bind {mid : List (Field × Value)} {f : α → Build β} (hx : Fills a form old mid x)
    (hf : ∀ w, Fills a form mid new (f w)) : Fills a form old new (x >>= f) := by
  refine ⟨fun b K hab => (hx.1 b K hab).bind fun w => (hf w).1 b K hab, ?_⟩
  intro s r s' h hs
  obtain ⟨w, t, hxs, hfs⟩ := andThen_eq_ok.mp h
  exact (hf w).2 t r s' hfs (hx.2 s w t hxs hs)

/-- A build that sets only other fields of the node. -/
theorem fills_of_pins
    (h : ∀ b K, (a = b → ∀ n f v, f ∉ fields.map Prod.fst → K n → K (n.set f v)) → Pins b K x) :
    Fills a form fields fields x := by
  refine ⟨fun b K hab => h b K fun heq => absurd heq hab, ?_⟩
  -- To have the fields is a property of the node that setting another one keeps.
  refine h a _ fun _ n f v hf hn => hn.set fun e he heq => hf ?_
  exact heq ▸ List.mem_map_of_mem he

theorem fills_startType (args : Arguments) : Fills a form [] [] (startType a args) :=
  fills_of_pins fun _ _ hset => pins_startType (fun hab n f v => hset hab n f v (by simp)) args

theorem fills_giveType {type : Option Form} (htype : Field.type ∉ fields.map Prod.fst) :
    Fills a form fields fields (giveType a type) :=
  fills_of_pins fun _ _ hset => pins_giveType fun hab n v => hset hab n _ v htype

theorem fills_setOther {f : Field} {v : Value} (hf : f ∉ fields.map Prod.fst) :
    Fills a form fields fields (setField a f v) :=
  fills_of_pins fun _ _ hset => pins_setField fun hab n => hset hab n _ _ hf

/-- After fields are set, the node has them. -/
theorem fills_setFields (hdistinct : (fields.map Prod.fst).Nodup) :
    Fills a form [] fields (setFields a fields) := by
  refine ⟨fun b K hab => pins_setFields fun heq => absurd heq hab, ?_⟩
  intro s r s' h hs
  obtain ⟨n, hn, hform⟩ := hs
  cases h
  have hcell := Store.cell?_updateNode_self (Store.node?_eq_some.mp hn)
    fun n => fields.foldl (fun n e => n.set e.1 e.2) n
  exact ⟨_, Store.node?_eq_some.mpr hcell, hform.foldl hdistinct (by simp)⟩

theorem fills_setField (f : Field) (v : Value) : Fills a form [] [(f, v)] (setField a f v) :=
  fills_setFields (by simp)

/-- A binary operator has its code and its operands, whatever its type comes out as. -/
theorem fills_fillBinary (fuel : Nat) (op lhs rhs : Value) :
    Fills a form [] (operatorFields op lhs rhs) (fillBinary (fuel + 1) a op lhs rhs) := by
  rw [fillBinary_succ]
  refine (fills_setFields (by simp [operatorFields])).bind fun _ => ?_
  refine ⟨fun b K hab => ?_, ?_⟩
  · exact pins_typeOperator (fun heq => absurd heq hab)
      (fun c op l r hc => pins_fillBinary fuel hc op l r) lhs rhs
  · exact pins_typeOperator (fun _ n v hn => hn.set (by simp [operatorFields]))
      (fun c op l r hc => pins_fillBinary fuel hc op l r) lhs rhs

/-- What is done with a new node leaves the others. -/
theorem kept_of_pins {x : Build α} {c : Cell} {y : α}
    (hx : ∀ b K, s.nextAddress ≠ b → Pins b K x) (h : x (s.push c) = (.ok y, s')) : s.Kept s' := by
  intro b n hn
  have hlt : b < s.nextAddress := (Array.getElem?_eq_some_iff.mp (Store.node?_eq_some.mp hn)).1
  have hold : s.Pinned b fun m => m = n := ⟨n, hn, rfl⟩
  obtain ⟨m, hm, rfl⟩ := hx b _ (Nat.ne_of_gt hlt) _ _ _ h (hold.push c)
  exact hm

theorem pinned_push (s : Store) (form : Form) :
    (s.push (.node ⟨form, 0, []⟩)).Pinned s.nextAddress fun n => n.Has form [] :=
  ⟨_, Store.node?_eq_some.mpr (Store.cell?_push_next s _), rfl, by simp⟩

/-- **Constructors.** One that fills its node keeps all nodes that were there, and makes one
with the fields. -/
theorem construct_eq_ok {rest : List Value} (hargs : Arguments.fill form given = .ok args)
    (hfill : ∀ a, Fills a form [] fields (fill a form args rest))
    (h : construct form rest given s = (.ok a, s')) :
    s.Kept s' ∧ s'.Pinned a fun n => n.Has form fields := by
  rw [construct, hargs] at h
  obtain ⟨w, t, hnew, hrest⟩ := andThen_eq_ok.mp h
  cases hnew
  obtain ⟨u, t, hfilled, hpure⟩ := andThen_eq_ok.mp hrest
  cases hpure
  exact ⟨kept_of_pins (hfill _).1 hfilled, (hfill _).2 _ _ _ hfilled (pinned_push s form)⟩

/-- Variables have the name that they are given. -/
theorem fills_variableUse (a : Address) (args : Arguments) :
    Fills a .variableUse [] [(.name, args.get .name)] (fill a .variableUse args []) := by
  refine Fills.bind ?_ fun _ => fills_setOther (by simp)
  refine (fills_startType args).bind fun _ => ?_
  refine (fills_setField .name (args.get .name)).bind fun _ => ?_
  exact (fills_of_pins fun _ _ _ => pins_newType _).bind fun _ => fills_setOther (by simp)

/-- Whole numbers have the value that they are given. -/
theorem fills_integer (hform : form ∈ Target.integerLiterals) (a : Address) (args : Arguments) :
    Fills a form [] [(.value, args.get .value)] (fill a form args []) := by
  have hfill : fill a form args [] = (do
      startType a args
      let ref ← literalRef
      setField a .ref (.text ref)
      setField a .value (args.get .value)
      giveType a (literalType? form)
      giveType a (refinedType? form)) := by
    simp only [Target.integerLiterals, List.mem_cons, List.not_mem_nil, or_false] at hform
    rcases hform with rfl | rfl | rfl | rfl | rfl | rfl | rfl | rfl | rfl | rfl <;> rfl
  rw [hfill]
  refine (fills_startType args).bind fun _ => ?_
  refine (fills_of_pins fun _ _ _ => pins_literalRef).bind fun _ => ?_
  refine (fills_setOther (by simp)).bind fun _ => ?_
  refine (fills_setField .value _).bind fun _ => ?_
  exact (fills_giveType (by simp)).bind fun _ => fills_giveType (by simp)

/-- **Binary operators.** Making one keeps all nodes, and the new one has the code and the
operands. -/
theorem newBinary_eq_ok {code : String} {l r v : Value} (h : newBinary code l r s = (.ok v, s')) :
    s.Kept s' ∧ ∃ a, v = .ref a ∧
      s'.Pinned a fun n => n.Has .binaryOp (operatorFields (.text code) l r) := by
  obtain ⟨a, t, hnew, hpure⟩ := andThen_eq_ok.mp h
  cases hpure
  obtain ⟨args, hargs, hcode, hl, hr⟩ : ∃ args, Arguments.fill .binaryOp
      [(.opCode, .text code), (.lhs, l), (.rhs, r)] = .ok args ∧
      operatorCode .binaryOp args = .text code ∧ args.get .lhs = l ∧ args.get .rhs = r :=
    ⟨_, rfl, rfl, rfl, rfl⟩
  have hfills : ∀ a, Fills a .binaryOp [] (operatorFields (.text code) l r)
      (fill a .binaryOp args []) := by
    intro a
    have hfill : fill a .binaryOp args [] = (do
        startType a args
        fillOperator a (operatorCode .binaryOp args) (args.get .lhs) (args.get .rhs)) := rfl
    rw [hfill, hcode, hl, hr]
    refine (fills_startType args).bind fun _ => ?_
    exact (fills_of_pins fun _ _ _ => pins_look still_store).bind fun _ =>
      fills_fillBinary _ _ _ _
  obtain ⟨hkept, hmade⟩ := construct_eq_ok hargs hfills hnew
  exact ⟨hkept, a, rfl, hmade⟩

end Constructors

end Build

end ProgramTree
