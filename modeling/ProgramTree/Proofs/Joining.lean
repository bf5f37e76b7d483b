/-
A node that is built joins its parent, whatever becomes of it.

A constructor that was called with the right arguments makes the node, adds it to its
parent, and only then looks at the arguments of its form. What comes after the joining
never touches the parent: it fills the new node, makes cells of its own, and moves
cursors. So a parent has the same nodes after a constructor that went well and after one
that failed on the way, its old nodes and the new one. Only a call with the wrong
arguments, which fails before there is a node, leaves the parent as it was.
-/
import ProgramTree.Proofs.Built

namespace ProgramTree

open Look Build

/-! ## What a container keeps -/

/-- The container at `p` keeps the nodes `xs` in the list at `l`. -/
structure Store.Keeps (s : Store) (p l : Address) (xs : List Value) : Prop where
  node : s.Pinned p fun n => n.form.isA .nodeList = true ∧ n.get? .nodes = some (.ref l)
  items : s.cell? l = some (.list xs)

namespace Store.Keeps

variable {s : Store} {a k l p : Address} {xs ys : List Value}

variable (h : s.Keeps p l xs)

include h

theorem isContainer : IsContainer s (.ref p) l xs := by
  obtain ⟨n, hn, hisA, hl⟩ := h.node
  exact isContainer_of_get? hn hisA hl h.items

theorem list_lt : l < s.nextAddress :=
  (Array.getElem?_eq_some_iff.mp h.items).1

theorem node_lt : p < s.nextAddress := by
  obtain ⟨n, hn, -⟩ := h.node
  exact (Array.getElem?_eq_some_iff.mp (node?_eq_some.mp hn)).1

theorem push (c : Cell) : (s.push c).Keeps p l xs :=
  ⟨h.node.push c, (s.cell?_push_of_lt c l h.list_lt).trans h.items⟩

theorem updateNode (ha : a ≠ p) (g : Node → Node) : (s.updateNode a g).Keeps p l xs :=
  ⟨h.node.updateNode fun hap => absurd hap ha, cell?_updateNode h.items (by simp) g⟩

/-- The other fields of a container can change. -/
theorem set {f : Field} (hf : f ≠ .nodes) (a : Address) (v : Value) :
    (s.updateNode a fun n => n.set f v).Keeps p l xs := by
  refine ⟨h.node.updateNode fun _ n hn => ⟨hn.1, ?_⟩, cell?_updateNode h.items (by simp) _⟩
  rw [Node.get?_set, if_neg hf.symm, hn.2]

theorem applyMoves (moves : List Move) : (s.applyMoves moves).Keeps p l xs := by
  induction moves generalizing s with
  | nil => exact h
  | cons m moves ih => exact ih (h.set (by decide) m.container _)

/-- One more node stands behind the others. -/
theorem append (x : Value) : (s.replace l (.list (xs ++ [x]))).Keeps p l (xs ++ [x]) :=
  ⟨h.node.replace_list h.items, s.cell?_replace_self l _ h.list_lt⟩

/-- A change to another list leaves a container alone. -/
theorem replace (hk : s.cell? k = some (.list ys)) (hne : l ≠ k) (zs : List Value) :
    (s.replace k (.list zs)).Keeps p l xs :=
  ⟨h.node.replace_list hk, (s.cell?_replace_of_ne k l _ hne).trans h.items⟩

end Store.Keeps

/-! ## Builds that leave a container alone -/

section Leaves

variable {α β : Type} {a l p : Address} {xs : List Value}

/-- A build leaves what the container at `p` keeps, also if it fails. -/
def Leaves (p l : Address) (xs : List Value) (x : Build α) : Prop :=
  ∀ s, s.Keeps p l xs → (x s).2.Keeps p l xs

theorem leaves_pure (r : α) : Leaves p l xs (pure r : Build α) := fun _ h => h

theorem leaves_fail (e : Fault) : Leaves p l xs (Build.fail e : Build α) := fun _ h => h

/-- What stands after the first of two builds stands after both, if the second one leaves
it. -/
theorem keeps_bind {x : Build α} {f : α → Build β} {s : Store} (hx : (x s).2.Keeps p l xs)
    (hf : ∀ r, Leaves p l xs (f r)) : ((x >>= f) s).2.Keeps p l xs := by
  show (Build.bind x f s).2.Keeps p l xs
  rw [Build.bind]
  rcases hxs : x s with ⟨e | r, t⟩
  · rwa [hxs] at hx
  · rw [hxs] at hx
    exact hf r t hx

theorem keeps_after {x : Build α} {f : α → Build β} {s t : Store} {r : α} (hx : x s = (.ok r, t))
    (hf : (f r t).2.Keeps p l xs) : ((x >>= f) s).2.Keeps p l xs := by
  rwa [andThen_of_eq hx]

theorem Leaves.bind {x : Build α} {f : α → Build β} (hx : Leaves p l xs x)
    (hf : ∀ r, Leaves p l xs (f r)) : Leaves p l xs (x >>= f) := fun s h =>
  keeps_bind (hx s h) hf

theorem Leaves.rescue {x : Build α} {f : Fault → Build α} (hx : Leaves p l xs x)
    (hf : ∀ e, Leaves p l xs (f e)) : Leaves p l xs (Build.rescue x f) := by
  intro s h
  have ht := hx s h
  rw [Build.rescue]
  rcases hxs : x s with ⟨e | r, t⟩
  · rw [hxs] at ht
    exact hf e t ht
  · rwa [hxs] at ht

theorem leaves_forM {f : α → Build PUnit} (hf : ∀ r, Leaves p l xs (f r)) (rs : List α) :
    Leaves p l xs (rs.forM f) := by
  induction rs with
  | nil => exact leaves_pure _
  | cons r rs ih => exact (hf r).bind fun _ => ih

/-- A look moves cursors and nothing else. -/
theorem leaves_look (x : Look α) : Leaves p l xs (look x) := fun s h =>
  h.applyMoves (x s).moves

theorem leaves_store : Leaves p l xs Build.store := fun _ h => h

theorem leaves_tempName : Leaves p l xs tempName := fun _ h => ⟨h.node, h.items⟩

theorem leaves_literalRef : Leaves p l xs literalRef := fun _ h => ⟨h.node, h.items⟩

theorem leaves_setFields (ha : a ≠ p) (fields : List (Field × Value)) :
    Leaves p l xs (setFields a fields) := fun _ h => h.updateNode ha _

theorem leaves_setField (ha : a ≠ p) (f : Field) (v : Value) :
    Leaves p l xs (setField a f v) := fun _ h => h.updateNode ha _

/-- What is made is at an address of its own, and what is done with it is done there. -/
theorem leaves_new_bind (c : Cell) {f : Address → Build β}
    (hf : ∀ a, a ≠ p → Leaves p l xs (f a)) : Leaves p l xs (new c >>= f) := fun s h =>
  hf s.nextAddress (Nat.ne_of_gt h.node_lt) (s.push c) (h.push c)

theorem leaves_newList (ys : List Value) : Leaves p l xs (newList ys) :=
  leaves_new_bind _ fun _ _ => leaves_pure _

theorem leaves_copy (v : Value) : Leaves p l xs (copy v) := by
  cases v with
  | ref a =>
    refine leaves_store.bind fun s => Leaves.bind (fun t h => ?_) fun _ => leaves_pure _
    -- Copies go behind all the cells that are there.
    obtain ⟨n, hn, hn'⟩ := h.node
    refine ⟨⟨n, ?_, hn'⟩, (Store.cell?_pushCopies_of_lt h.list_lt).trans h.items⟩
    rw [Store.node?_eq_some] at hn ⊢
    exact (Store.cell?_pushCopies_of_lt h.node_lt).trans hn
  | _ => exact leaves_pure _

/-! ## Parts of constructors -/

/-- A node without a parent joins nothing. -/
theorem leaves_startNode (ha : a ≠ p) {args : Arguments} (hparent : args.get .parent = .none) :
    Leaves p l xs (startNode a args) := by
  refine (leaves_setFields ha _).bind fun _ => ?_
  rw [if_neg (not_not_intro hparent)]
  exact leaves_pure _

theorem leaves_newBare (form : Form) : Leaves p l xs (newBare form) :=
  leaves_new_bind _ fun _ ha => (leaves_startNode ha rfl).bind fun _ => leaves_pure _

/-- What a data type gets after it has joined its parent. -/
def nameType (a : Address) : Build Unit := do
  let name ← tempName
  setField a .name (.text name)
  let type ← newBare .exprType
  setField a .type (.ref type)

theorem leaves_nameType (ha : a ≠ p) : Leaves p l xs (nameType a) := by
  refine leaves_tempName.bind fun name => (leaves_setField ha _ _).bind fun _ => ?_
  exact (leaves_newBare _).bind fun type => leaves_setField ha _ _

theorem leaves_startType (ha : a ≠ p) {args : Arguments} (hparent : args.get .parent = .none) :
    Leaves p l xs (startType a args) :=
  (leaves_startNode ha hparent).bind fun _ => leaves_nameType ha

theorem leaves_newType {form : Form} (hform : madeBare form = true) :
    Leaves p l xs (newType form) := by
  rw [madeBare] at hform
  rw [newType]
  cases hargs : Arguments.fill form [] with
  | error e => exact leaves_fail e
  | ok args =>
    simp only [hargs, Bool.and_eq_true, decide_eq_true_eq] at hform
    refine leaves_new_bind _ fun a ha => Leaves.bind ?_ fun _ => leaves_pure _
    rw [startForm]
    split
    · exact leaves_startType ha hform.2
    · exact leaves_startNode ha hform.2

/-- What a container gets after it has joined its parent. -/
def openContainer (a : Address) (name : Value) : Build Unit := do
  let nodes ← newList []
  setFields a [(.name, name), (.nodes, nodes), (.position, .int 0)]

/-- A container gets a list of its own. -/
theorem openContainer_keeps {s : Store} (hs : s.Pinned a fun n => n.form.isA .nodeList = true)
    (name : Value) : ∃ t, openContainer a name s = (.ok (), t) ∧ t.Keeps a s.nextAddress [] ∧
      ∀ p l xs, a ≠ p → s.Keeps p l xs → t.Keeps p l xs := by
  refine ⟨_, rfl, ⟨?_, ?_⟩, fun p l xs ha h => (h.push _).updateNode ha _⟩
  · obtain ⟨n, hn, hform⟩ := hs.push (.list [])
    have hcell := Store.cell?_updateNode_self (Store.node?_eq_some.mp hn)
      fun n => [(.name, name), (.nodes, .ref s.nextAddress), (.position, .int 0)].foldl
        (fun n (e : Field × Value) => n.set e.1 e.2) n
    refine ⟨_, Store.node?_eq_some.mpr hcell, hform, ?_⟩
    simp [Node.get?_set]
  · exact Store.cell?_updateNode (s.cell?_push_next _) (by simp) _

/-- What is added to a container goes into the container's own list. -/
theorem keeps_appends {k : Address} (hkl : l ≠ k) (vs : List Value) {s : Store} {ys : List Value}
    (h : s.Keeps p l xs) (ha : s.Keeps a k ys) :
    ((vs.forM fun v => append (.ref a) v) s).2.Keeps p l xs := by
  -- Each item goes into the list at `k`, which is longer for the next one.
  induction vs generalizing s ys with
  | nil => exact h
  | cons v vs ih =>
    refine keeps_after (append_eq ha.isContainer v) ?_
    exact ih (h.replace ha.items hkl _) (ha.append v)

theorem leaves_newContainer (sort : Option Form) (items : List Value) :
    Leaves p l xs (newContainer sort items) := by
  intro s h
  have hne : s.nextAddress ≠ p := Nat.ne_of_gt h.node_lt
  have hbare : (s.push (.node ⟨.nodeList, 0, []⟩)).Pinned s.nextAddress
      fun n => n.form.isA .nodeList = true :=
    ⟨_, Store.node?_eq_some.mpr (s.cell?_push_next _), by decide⟩
  -- The container is started without a parent, and gets a list of its own.
  have hbegun := leaves_startNode hne (show Arguments.get [] .parent = .none from rfl) _
    (h.push (.node ⟨.nodeList, 0, []⟩))
  obtain ⟨t, ht, hown, hkeep⟩ := openContainer_keeps
    (pins_startNode (fun _ _ _ _ hn => hn) [] _ _ _ rfl hbare) (.text "entry")
  have hstart : startContainer s.nextAddress [] (.text "entry")
      (s.push (.node ⟨.nodeList, 0, []⟩)) = (.ok (), t) := ht
  have hnew : new (.node ⟨.nodeList, 0, []⟩) s = (.ok s.nextAddress, s.push _) := rfl
  refine keeps_after hnew (keeps_after hstart ?_)
  have hlist : l ≠ _ := Nat.ne_of_lt hbegun.list_lt
  have hp := hkeep p l xs hne hbegun
  cases sort with
  | none => exact keeps_bind (keeps_appends hlist items hp hown) fun _ => leaves_pure _
  | some form =>
    have hset : setField s.nextAddress .itemSort (.text form.path) t = (.ok (), _) := rfl
    have hsort : Field.itemSort ≠ .nodes := by decide
    refine keeps_after hset (keeps_bind ?_ fun _ => leaves_pure _)
    exact keeps_appends hlist items (hp.set hsort _ _) (hown.set hsort _ _)

theorem leaves_gather (f : Field) (v : Value) : Leaves p l xs (gather f v) := by
  refine (leaves_look _).bind fun b => ?_
  split
  · exact leaves_pure _
  · exact (leaves_look _).bind fun items => leaves_newContainer _ _

theorem leaves_keep (ha : a ≠ p) (q : Param) (v : Value) : Leaves p l xs (keep a q v) := by
  have hset : ∀ w, Leaves p l xs (setField a q.field w) := leaves_setField ha q.field
  have hgather : Leaves p l xs (gather q.field v >>= fun w => setField a q.field w) :=
    (leaves_gather _ v).bind hset
  rw [keep]
  split
  · exact hset v
  · exact hgather
  · refine (leaves_look _).bind fun b => ?_
    split
    · exact hgather
    · exact hset _
  · exact ((leaves_gather _ v).rescue fun _ => leaves_newContainer _ _).bind hset
  · exact hgather.rescue fun _ => leaves_pure _
  · exact leaves_pure _

theorem leaves_keepAll (ha : a ≠ p) (form : Form) (args : Arguments) :
    Leaves p l xs (keepAll a form args) :=
  leaves_forM (fun q => leaves_keep ha q _) _

/-- Comparing the types of two operands makes operators, which are filled alike. -/
theorem leaves_fillBinary (fuel : Nat) (ha : a ≠ p) (op lhs rhs : Value) :
    Leaves p l xs (fillBinary fuel a op lhs rhs) := by
  -- The operators made on the way are nodes of their own, so `a` is any node but the parent.
  induction fuel generalizing a op lhs rhs with
  | zero => exact leaves_fail _
  | succ fuel ih =>
    have hgive : ∀ type, Leaves p l xs (setField a .type type) := leaves_setField ha .type
    have hfrom : ∀ left typed, Leaves p l xs (typeFrom fuel a rhs left typed) := by
      intro left typed
      refine (leaves_look _).bind fun right => ?_
      split
      · exact (leaves_look _).bind fun _ => (leaves_look _).bind fun _ => leaves_fail _
      · refine (leaves_look _).bind fun c => (leaves_look _).bind fun d => ?_
        split
        · refine leaves_new_bind _ fun b hb => (leaves_startType hb rfl).bind fun _ => ?_
          refine (leaves_look _).bind fun turned => ?_
          cases turned with
          | true => exact (ih hb _ _ _).bind fun _ => hgive left
          | false => exact (ih hb _ _ _).bind fun _ => hgive left
        · split
          · exact hgive left
          · exact (leaves_look _).bind hgive
    rw [fillBinary_succ]
    refine (leaves_setFields ha _).bind fun _ => (leaves_look _).bind fun left => ?_
    refine (leaves_look _).bind fun b => ?_
    split
    · exact (leaves_look _).bind fun _ => (leaves_look _).bind fun typed => hfrom left typed
    · exact hfrom left false

theorem leaves_newNone : Leaves p l xs newNone := by
  refine leaves_new_bind _ fun b hb => Leaves.bind ?_ fun _ => leaves_pure _
  refine (leaves_startType hb rfl).bind fun _ => leaves_literalRef.bind fun ref => ?_
  refine (leaves_setField hb _ _).bind fun _ => (leaves_setField hb _ _).bind fun _ => ?_
  refine Leaves.bind ?_ fun _ => leaves_pure _
  exact (leaves_newType (by decide)).bind fun type => leaves_setField hb _ _

theorem leaves_fillSubscript (ha : a ≠ p) (args : Arguments) :
    Leaves p l xs (fillSubscript a args) := by
  refine leaves_forM (fun f => Leaves.bind ?_ fun v => leaves_setField ha f v) _
  rw [orNone]
  split
  · exact leaves_newNone
  · exact leaves_pure _

theorem leaves_classBody (args : Arguments) : Leaves p l xs (classBody args) := by
  rw [classBody]
  split
  · refine (leaves_copy _).bind fun body => (leaves_look _).bind fun name => ?_
    split
    · exact Leaves.bind (fun _ h => h.set (by decide) _ _) fun _ => leaves_pure _
    · exact leaves_pure _
  · exact leaves_pure _

theorem leaves_checkCase (args : Arguments) : Leaves p l xs (checkCase args) := by
  have hsecond : Leaves p l xs
      (if args.get .defaultValue = .bool true && args.get .condition ≠ .none
        then Build.fail .conditionUnwanted else pure () : Build Unit) := by
    split
    · exact leaves_fail _
    · exact leaves_pure _
  rw [checkCase]
  split
  · exact (leaves_fail _).bind fun _ => hsecond
  · exact hsecond

end Leaves

/-! ## Joining the parent -/

section Joins

variable {α β : Type} {a l p : Address} {args : Arguments}

/-- A build adds the node at `a` to what the container at `p` keeps, also if it fails. -/
def Joins (a p l : Address) (x : Build α) : Prop :=
  ∀ s xs, s.Keeps p l xs → (x s).2.Keeps p l (xs ++ [.ref a])

theorem Joins.bind {x : Build α} {f : α → Build β} (hx : Joins a p l x)
    (hf : ∀ r xs, Leaves p l xs (f r)) : Joins a p l (x >>= f) := fun s xs h =>
  keeps_bind (hx s xs h) fun r => hf r _

section

variable (ha : a ≠ p) (hparent : args.get .parent = .ref p)

include ha hparent

/-- A node that is started joins its parent. -/
theorem startNode_joins {s : Store} {xs : List Value} (h : s.Keeps p l xs) :
    ∃ t, startNode a args s = (.ok (), t) ∧ t.Keeps p l (xs ++ [.ref a]) := by
  have hset : (setFields a (Shared.baseFields
    ((args.lookup .loc).getD (.ref Shared.noPlace)) (args.get .parent)) s).2.Keeps p l xs :=
    h.updateNode ha _
  refine ⟨_, ?_, hset.append (.ref a)⟩
  refine (andThen_of_eq rfl).trans ?_
  rw [if_pos (by simp [hparent])]
  exact hparent ▸ append_eq (hparent ▸ hset.isContainer) _

theorem joins_startNode : Joins a p l (startNode a args) := by
  intro s xs h
  obtain ⟨t, ht, hjoined⟩ := startNode_joins ha hparent h
  rwa [ht]

theorem joins_startType : Joins a p l (startType a args) :=
  (joins_startNode ha hparent).bind fun _ _ => leaves_nameType ha

theorem joins_fillIdentifier : Joins a p l (fillIdentifier a args) := by
  refine (joins_startType ha hparent).bind fun _ _ => (leaves_setField ha _ _).bind fun _ => ?_
  exact (leaves_newType (by decide)).bind fun type => leaves_setField ha _ _

theorem joins_fillPlain (form : Form) : Joins a p l (fillPlain a form args) := by
  have hstart : Joins a p l (startForm a form args) := by
    rw [startForm]
    split
    · exact joins_startType ha hparent
    · exact joins_startNode ha hparent
  exact hstart.bind fun _ _ => (leaves_keepAll ha form args).bind fun _ => leaves_setField ha _ _

end

/-- The forms whose nodes can be given a parent. -/
def Form.takesParent (form : Form) : Bool :=
  form.signature.2.any fun q => q.field = .parent

/-- The only literals that can be given a parent are those without a value. -/
theorem eq_literal_of_takesParent (form : Form) (htakes : form.takesParent = true)
    (hliteral : form.isA .literal = true) : form = .literal := by
  have hall : ∀ f : Form, f.takesParent = true → f.isA .literal = true → f = .literal := by
    intro f
    cases f <;> decide
  exact hall form htakes hliteral

/-- Arguments in a row are added after their list has joined its own parent. -/
theorem joins_arguments (ha : a ≠ p) (hparent : args.get .parent = .ref p) (rest : List Value)
    {s : Store} {xs : List Value} (h : s.Keeps p l xs)
    (hs : s.Pinned a fun n => n.form.isA .nodeList = true) :
    (fill a .arguments args rest s).2.Keeps p l (xs ++ [.ref a]) := by
  obtain ⟨t, ht, hjoined⟩ := startNode_joins ha hparent h
  have hstarted := pins_startNode (b := a) (fun _ _ _ _ hn => hn) args s () t ht hs
  obtain ⟨u, hu, hown, hkeep⟩ := openContainer_keeps hstarted (args.get .name)
  have hstart : startContainer a args (args.get .name) s = (.ok (), u) :=
    (andThen_of_eq ht).trans hu
  refine keeps_after hstart ?_
  exact keeps_appends (Nat.ne_of_lt hjoined.list_lt) rest (hkeep _ _ _ ha hjoined) hown

/-- Every constructor that takes a parent adds its node there, and then leaves the parent
alone. -/
theorem joins_fill {form : Form} (htakes : form.takesParent = true) (hform : form ≠ .arguments)
    (ha : a ≠ p) (hparent : args.get .parent = .ref p) (rest : List Value) :
    Joins a p l (fill a form args rest) := by
  have hset : ∀ f v xs, Leaves p l xs (setField a f v) := fun f v _ => leaves_setField ha f v
  have htype := joins_startType (l := l) ha hparent
  have hcontainer : ∀ name, Joins a p l (startContainer a args name) := fun name =>
    (joins_startNode ha hparent).bind fun _ _ =>
      (leaves_newList []).bind fun _ => leaves_setFields ha _
  unfold fill
  split
  -- The cases of `fill` in their order; places, types, packages and programs have no parent.
  iterate 6 exact absurd htakes (by decide)
  · exact hcontainer _
  · exact hcontainer _
  · exact absurd htakes (by decide)
  · exact absurd rfl hform
  · exact absurd htakes (by decide)
  · exact absurd htakes (by decide)
  · refine htype.bind fun _ _ => (leaves_newType (by decide)).bind fun other => ?_
    refine (leaves_look _).bind fun type => (hset _ _ _).bind fun _ => ?_
    exact (hset _ _ _).bind fun _ => hset _ _ _
  · exact joins_fillIdentifier ha hparent
  · exact (joins_fillIdentifier ha hparent).bind fun _ _ => hset _ _ _
  · refine (joins_fillIdentifier ha hparent).bind fun _ _ => ?_
    exact (leaves_keepAll ha _ args).bind fun _ => hset _ _ _
  · refine htype.bind fun _ _ => (leaves_look _).bind fun fn => (hset _ _ _).bind fun _ => ?_
    exact (leaves_setFields ha _).bind fun _ => hset _ _ _
  · refine (joins_fillPlain ha hparent _).bind fun _ _ => ?_
    exact (leaves_classBody args).bind fun body => hset _ _ _
  · exact (joins_fillPlain ha hparent _).bind fun _ _ => leaves_checkCase args
  · refine (joins_startNode ha hparent).bind fun _ _ => ?_
    exact (leaves_fillSubscript ha args).bind fun _ => hset _ _ _
  · exact absurd htakes (by decide)
  · split
    · exact htype.bind fun _ _ => leaves_store.bind fun _ => leaves_fillBinary _ ha _ _ _
    · split
      · exact htype.bind fun _ _ => (leaves_setFields ha _).bind fun _ => hset _ _ _
      · split
        · next hliteral =>
          obtain rfl := eq_literal_of_takesParent form htakes hliteral
          refine htype.bind fun _ _ => leaves_literalRef.bind fun ref => ?_
          exact (hset _ _ _).bind fun _ => (leaves_pure ()).bind fun _ => leaves_pure ()
        · exact joins_fillPlain ha hparent form

/-- An argument that was taken belongs to a parameter, which it is for. -/
theorem taken_of_fill {form : Form} {given : List (Field × Value)} {f : Field} {v : Value}
    (hgiven : given.reverse.lookup f = some v) (hargs : Arguments.fill form given = .ok args) :
    (form.signature.2.any fun q => q.field = f) = true ∧ args.get f = v := by
  have hmem : (f, v) ∈ given := by
    obtain ⟨before, after, hsplit, -⟩ := List.lookup_eq_some_iff.mp hgiven
    rw [← List.mem_reverse, hsplit]
    simp
  have hknown : (form.signature.2.any fun q => q.field = f) = true := by
    rw [fill_eq] at hargs
    split at hargs
    · cases hargs
    · next hnone => simpa using List.find?_eq_none.mp hnone _ hmem
  refine ⟨hknown, ?_⟩
  obtain ⟨q, hq, hfield⟩ := List.any_eq_true.mp hknown
  obtain rfl := of_decide_eq_true hfield
  rw [(fill_inv hargs).2, Arguments.get, lookup_params (nodup_fields form) _ hq, chosen, hgiven]
  rfl

variable {form : Form} {given : List (Field × Value)} {s : Store} {xs : List Value}

/-- A call with the right arguments makes a bare node and fills it. -/
theorem construct_eq (hargs : Arguments.fill form given = .ok args) (rest : List Value)
    (s : Store) : construct form rest given s =
      (fill s.nextAddress form args rest >>= fun _ => pure s.nextAddress)
        (s.push (.node ⟨form, 0, []⟩)) := by
  rw [construct, hargs]
  rfl

/-- The node that such a call makes joins its parent. -/
theorem construct_keeps (hgiven : given.reverse.lookup .parent = some (.ref p))
    (hargs : Arguments.fill form given = .ok args) (rest : List Value) (h : s.Keeps p l xs) :
    (construct form rest given s).2.Keeps p l (xs ++ [.ref s.nextAddress]) := by
  have ha : s.nextAddress ≠ p := Nat.ne_of_gt h.node_lt
  obtain ⟨htakes, hparent⟩ := taken_of_fill hgiven hargs
  rw [construct_eq hargs]
  refine keeps_bind ?_ fun _ => leaves_pure _
  -- Only a list of arguments goes on to add nodes, to itself, after it has joined.
  by_cases hform : form = .arguments
  · subst hform
    have hbare := Store.node?_eq_some.mpr (s.cell?_push_next (.node ⟨.arguments, 0, []⟩))
    exact joins_arguments ha hparent rest (h.push _) ⟨_, hbare, by decide⟩
  · exact joins_fill htakes hform ha hparent rest _ xs (h.push _)

/-! ## Constructors that check nothing -/

/-- The forms whose constructors only keep their arguments as they are. -/
def Form.unchecked (form : Form) : Bool :=
  form ∉ special && !form.isA .binaryOp && !form.isA .unaryOp && !form.isA .literal &&
    form.fillOrder.all fun q => q.keeping = .plain || q.keeping = .elsewhere

/-- Arguments that are kept as they are can always be kept. -/
theorem keep_goes (a : Address) (args : Arguments) (qs : List Param)
    (hqs : ∀ q ∈ qs, q.keeping = .plain ∨ q.keeping = .elsewhere) (s : Store) :
    ∃ t, (qs.forM fun q => keep a q (args.get q.field)) s = (.ok (), t) := by
  induction qs generalizing s with
  | nil => exact ⟨s, rfl⟩
  | cons q qs ih =>
    have hkeep : ∃ t, keep a q (args.get q.field) s = (.ok (), t) := by
      rw [keep]
      rcases hqs q (List.mem_cons_self ..) with hq | hq <;> rw [hq] <;> exact ⟨_, rfl⟩
    obtain ⟨t, ht⟩ := hkeep
    obtain ⟨u, hu⟩ := ih (fun q hq => hqs q (List.mem_cons_of_mem _ hq)) t
    exact ⟨u, (andThen_of_eq ht).trans hu⟩

/-- A constructor that checks nothing goes well, if its parent is a container. -/
theorem construct_of_unchecked (hform : form.unchecked = true)
    (hgiven : given.reverse.lookup .parent = some (.ref p))
    (hargs : Arguments.fill form given = .ok args) (rest : List Value) (h : s.Keeps p l xs) :
    ∃ a t, construct form rest given s = (.ok a, t) := by
  simp only [Form.unchecked, Bool.and_eq_true, decide_eq_true_eq, Bool.not_eq_true',
    List.all_eq_true, Bool.or_eq_true] at hform
  obtain ⟨⟨⟨⟨hspecial, hbinary⟩, hunary⟩, hliteral⟩, hplain⟩ := hform
  have hfill : fill s.nextAddress form args rest = fillPlain s.nextAddress form args := by
    rw [fill_ordinary hspecial, fillOrdinary]
    simp [hbinary, hunary, hliteral]
  -- The start goes well because the parent is a container, the rest because it cannot fail.
  obtain ⟨t, ht, -⟩ := startNode_joins (Nat.ne_of_gt h.node_lt) (taken_of_fill hgiven hargs).2
    (h.push (.node ⟨form, 0, []⟩))
  have hstart : ∃ u, startForm s.nextAddress form args (s.push (.node ⟨form, 0, []⟩)) =
      (.ok (), u) := by
    rw [startForm]
    split
    · exact ⟨_, (andThen_of_eq ht).trans rfl⟩
    · exact ⟨t, ht⟩
  obtain ⟨u, hu⟩ := hstart
  obtain ⟨w, hw⟩ := keep_goes s.nextAddress args form.fillOrder hplain u
  rw [construct_eq hargs, hfill]
  exact ⟨_, _, andThen_of_eq ((andThen_of_eq hu).trans ((andThen_of_eq hw).trans rfl))⟩

/-- **A node joins its parent once its arguments were taken, also if its constructor fails.**
A constructor that goes well adds its node, and only it, behind the nodes of the parent. One
that fails leaves the parent as it was exactly if it refuses its arguments for their names;
after any other fault the parent has the half-made node behind its old ones. Constructors
that check nothing fail in the first way only. -/
theorem construct_joins (form : Form) (rest : List Value)
    (hgiven : given.reverse.lookup .parent = some (.ref p)) (h : s.Keeps p l xs) :
    (∀ a t, construct form rest given s = (.ok a, t) →
      a = s.nextAddress ∧ t.Keeps p l (xs ++ [.ref a])) ∧
    (∀ e t, construct form rest given s = (.error e, t) →
      (t.Keeps p l xs ↔ Arguments.fill form given = .error e) ∧
      (t.Keeps p l xs ∨ t.Keeps p l (xs ++ [.ref s.nextAddress])) ∧
      (form.unchecked = true → t.Keeps p l xs)) := by
  cases hargs : Arguments.fill form given with
  | error e =>
    have hfails : construct form rest given s = (.error e, s) := by
      rw [construct, hargs]
      rfl
    rw [hfails]
    refine ⟨fun a t ht => (by cases ht), fun e t ht => ?_⟩
    cases ht
    exact ⟨⟨fun _ => rfl, fun _ => h⟩, .inl h, fun _ => h⟩
  | ok args =>
    have hjoined := construct_keeps hgiven hargs rest h
    refine ⟨fun a t ht => ?_, fun e t ht => ?_⟩
    · rw [ht] at hjoined
      rw [construct_eq hargs] at ht
      obtain ⟨_, _, _, hpure⟩ := andThen_eq_ok.mp ht
      cases hpure
      exact ⟨rfl, hjoined⟩
    · rw [ht] at hjoined
      -- The list is longer by one node.
      have hnot : ¬ t.Keeps p l xs := fun hold => by
        have hsame := hjoined.items.symm.trans hold.items
        simp at hsame
      refine ⟨⟨fun hold => absurd hold hnot, fun hrefused => by cases hrefused⟩, .inr hjoined, ?_⟩
      intro hform
      obtain ⟨a, u, hgoes⟩ := construct_of_unchecked hform hgiven hargs rest h
      rw [ht] at hgoes
      cases hgoes

end Joins

/-- A store with an empty block at 21, whose list is at 22. -/
def oneBlock : Store :=
  (construct .block [] [] .initial).2

theorem oneBlock_keeps : oneBlock.Keeps 21 22 [] :=
  ⟨⟨_, rfl, by decide, by decide⟩, rfl⟩

/-- A branch without a condition that is not the default one is refused, and stays. -/
theorem refusedBranch_joins : oneBlock.Keeps 21 22 [] ∧
    ¬ (construct .caseStmt [] [(.body, .ref 21), (.parent, .ref 21)] oneBlock).2.Keeps 21 22 [] :=
  ⟨oneBlock_keeps, fun hold => by
    have hgiven : [(Field.body, Value.ref 21), (.parent, .ref 21)].reverse.lookup .parent =
        some (.ref 21) := rfl
    have hjoins := construct_joins .caseStmt [] hgiven oneBlock_keeps
    cases (hjoins.2 .conditionMissing _ rfl).1.mp hold⟩

theorem refusedBranch_stays :
    (construct .caseStmt [] [(.body, .ref 21), (.parent, .ref 21)] oneBlock).1 =
      .error .conditionMissing ∧
    (construct .caseStmt [] [(.body, .ref 21), (.parent, .ref 21)] oneBlock).2.cell? 22 =
      some (.list [.ref 23]) :=
  ⟨rfl, rfl⟩

end ProgramTree
