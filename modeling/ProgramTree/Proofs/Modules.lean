/-
What a module shows.

A module is a container, and building one and adding nodes to it fills its list of
nodes. Its conversion looks for a body instead, which no module has unless somebody
gives it one, so it shows the empty body whatever was added. The main statement says
exactly when that is right: when the nodes make the empty body as well.

The first half follows the building of a module through the store, because the
statement is about the modules that the constructor and `Build.append` make. Each
append keeps the module bare and adds one node to what it contains; the run of all
of them follows by induction.
-/
import ProgramTree.Proofs.Blocks

namespace ProgramTree

namespace Store

variable {s : Store} {a b : Address} {n : Node}

/-! ## Changed nodes -/

theorem cell?_updateNode_self (h : s.cell? a = some (.node n)) (f : Node → Node) :
    (s.updateNode a f).cell? a = some (.node (f n)) := by
  have hlt : a < s.nextAddress := (Array.getElem?_eq_some_iff.mp h).1
  simp only [updateNode, node?, h]
  exact cell?_replace_self s a _ hlt

theorem cell?_updateNode_of_ne (h : b ≠ a) (f : Node → Node) :
    (s.updateNode a f).cell? b = s.cell? b := by
  simp only [updateNode]
  split
  · exact cell?_replace_of_ne s a b _ h
  · rfl

@[simp] theorem nextAddress_updateNode (s : Store) (a : Address) (f : Node → Node) :
    (s.updateNode a f).nextAddress = s.nextAddress := by
  simp only [updateNode]
  split
  · exact nextAddress_replace ..
  · rfl

end Store

namespace Look

variable {α β : Type}

/-! ## Looks that leave the cursors alone -/

/-- A look that moves no cursor. -/
def Still (x : Look α) : Prop :=
  ∀ s, (x s).moves = []

theorem still_pure (a : α) : Still (pure a : Look α) := fun _ => rfl

theorem still_fail (e : Fault) : Still (fail e : Look α) := fun _ => rfl

theorem still_store : Still store := fun _ => rfl

theorem Still.bind {x : Look α} {f : α → Look β} (hx : Still x) (hf : ∀ a, Still (f a)) :
    Still (x >>= f) := by
  intro s
  have hxs := hx s
  show (Look.bind x f s).moves = []
  unfold Look.bind
  rcases h : x s with ⟨e | a, moves⟩
  · rw [h] at hxs
    exact hxs
  · rw [h] at hxs
    simp only [Sight.after, show moves = [] from hxs, hf a s, List.nil_append]

theorem still_ofOption (e : Fault) (o : Option α) : Still (ofOption e o) := by
  cases o with
  | none => exact still_fail e
  | some a => exact still_pure a

theorem still_rescue {x : Look α} {h : Fault → Look α} (hx : Still x) (hh : ∀ e, Still (h e)) :
    Still (rescue x h) := by
  intro s
  have hxs := hx s
  unfold rescue
  rcases heq : x s with ⟨e | a, moves⟩
  · rw [heq] at hxs
    simp only [Sight.after, show moves = [] from hxs, hh e s, List.nil_append]
  · rw [heq] at hxs
    exact hxs

theorem still_cell (a : Address) : Still (cell a) :=
  still_store.bind fun _ => still_ofOption _ _

theorem still_node? (v : Value) : Still (node? v) := by
  cases v with
  | ref a => exact still_store.bind fun _ => still_pure _
  | _ => exact still_pure _

theorem still_isA (v : Value) (g : Form) : Still (isA v g) :=
  (still_node? v).bind fun _ => still_pure _

theorem still_typeName (v : Value) : Still (typeName v) := by
  cases v with
  | ref a => exact (still_cell a).bind fun _ => still_pure _
  | _ => exact still_pure _

theorem still_lacks (v : Value) (key : String) : Still (lacks v key : Look α) :=
  (still_typeName v).bind fun _ => still_fail _

theorem still_plainField (v : Value) (f : Field) : Still (plainField v f) := by
  cases v with
  | member m =>
    simp only [plainField]
    split
    · exact still_pure _
    · split
      · exact still_pure _
      · exact still_lacks _ _
  | _ =>
    simp only [plainField]
    refine (still_node? _).bind fun o => ?_
    cases o with
    | none => exact still_lacks _ _
    | some n =>
      dsimp only
      split
      · exact still_pure _
      · split
        · exact still_pure _
        · split
          · exact still_store.bind fun _ => still_pure _
          · exact still_lacks _ _

/-- Finding what holds the items of a value is no walk. -/
theorem still_holder (v : Value) : Still (holder v) := by
  have hto : ∀ depth v, Still (holderTo depth v) := by
    intro depth
    induction depth with
    | zero => exact fun _ => still_fail _
    | succ depth ih =>
      intro v
      refine (still_isA v .nodeList).bind fun c => ?_
      cases c with
      | true => exact (still_plainField v .nodes).bind fun w => ih w
      | false => exact still_pure v
  exact still_store.bind fun _ => hto _ v

/-- A look that moves no cursor leaves the store as it is. -/
theorem Still.look_eq {x : Look α} (h : Still x) (s : Store) :
    Build.look x s = (run x s, s) := by
  simp only [Build.look, run, h s]
  rfl

theorem look_of_still {x : Look α} {s : Store} {r : α} (hx : Still x) (h : run x s = .ok r) :
    Build.look x s = (.ok r, s) := by
  rw [hx.look_eq, h]

end Look

namespace Build

open Look

variable {s : Store} {m v : Value} {l : Address} {xs : List Value}

/-! ## Building modules -/

/-- A module without a body of its own, with some nodes in it. -/
structure IsBareModule (s : Store) (m : Value) (l : Address) (xs : List Value) : Prop where
  isModule : s.formOf? m = some .moduleRoot
  lacksBody : (s.nodeOf? m).bind (fun n => n.get? .body) = none
  isContainer : IsContainer s m l xs

instance : Decidable (IsBareModule s m l xs) :=
  decidable_of_iff (s.formOf? m = some .moduleRoot ∧
      (s.nodeOf? m).bind (fun n => n.get? .body) = none ∧ IsContainer s m l xs)
    ⟨fun h => ⟨h.1, h.2.1, h.2.2⟩, fun h => ⟨h.isModule, h.lacksBody, h.isContainer⟩⟩

/-- Adding a node to a container puts it at the end of the container's list, and
changes nothing else. -/
theorem append_eq (h : IsContainer s v l xs) (x : Value) :
    append v x s = (.ok (), s.replace l (.list (xs ++ [x]))) := by
  have hhold : (look (holder v)) s = (.ok (.ref l), s) := by
    rw [(still_holder v).look_eq, h.run_holder]
  have hcell : (look (cell l)) s = (.ok (.list xs), s) := by
    rw [(still_cell l).look_eq, run_cell h.items]
  show Build.bind (look (holder v)) (fun w => appendItem w x) s = _
  simp only [Build.bind, hhold]
  show Build.bind (look (cell l)) _ s = _
  simp only [Build.bind, hcell]
  rfl

/-- A list stands elsewhere than a node, so changing the list leaves the node. -/
theorem nodeOf?_replace_list {ys zs : List Value} (h : s.cell? l = some (.list ys)) (v : Value) :
    (s.replace l (.list zs)).nodeOf? v = s.nodeOf? v := by
  cases v with
  | ref a =>
    simp only [Store.nodeOf?, Store.node?]
    by_cases ha : a = l
    · subst ha
      have hlt : a < s.nextAddress := (Array.getElem?_eq_some_iff.mp h).1
      rw [Store.cell?_replace_self s a _ hlt, h]
    · rw [Store.cell?_replace_of_ne s l a _ ha]
  | _ => rfl

/-- One append keeps a module bare. -/
theorem IsBareModule.append (h : IsBareModule s m l xs) (x : Value) :
    IsBareModule (s.replace l (.list (xs ++ [x]))) m l (xs ++ [x]) := by
  have hnode : (s.replace l (.list (xs ++ [x]))).nodeOf? m = s.nodeOf? m :=
    nodeOf?_replace_list h.isContainer.items m
  have hform : (s.replace l (.list (xs ++ [x]))).formOf? m = s.formOf? m := by
    simp only [Store.formOf?, hnode]
  have hlt : l < s.nextAddress := (Array.getElem?_eq_some_iff.mp h.isContainer.items).1
  refine ⟨hform.trans h.isModule, hnode ▸ h.lacksBody, ⟨hform ▸ h.isContainer.isNodeList, ?_, ?_⟩⟩
  · -- The field is read from the node, which did not change.
    obtain ⟨n, hn, hmod⟩ := Option.map_eq_some_iff.mp h.isModule
    have hnodes := h.isContainer.nodes
    cases m with
    | ref a =>
      rw [run_field_nodes] at hnodes ⊢
      simp only [plainField, run_bind, run_node?, hnode, hn, ok_bind] at hnodes ⊢
      cases hget : n.get? .nodes with
      | some w => simpa only [hget, run_pure] using hnodes
      | none =>
        have hlent : n.form.lent? .nodes = none := by
          rw [hmod]
          rfl
        simp [hget, hlent, lacks, bind_eq_ok] at hnodes
    | _ => exact absurd hn (by simp [Store.nodeOf?])
  · exact Store.cell?_replace_self s l _ hlt

/-- Adding nodes one after the other. -/
def appendAll (v : Value) (xs : List Value) : Build Unit :=
  xs.forM fun x => Build.append v x

/-- However many nodes are added, the module stays bare and has them all, in their
order. The induction is on the nodes still to come. -/
theorem IsBareModule.appendAll (h : IsBareModule s m l xs) (ys : List Value) :
    ∃ s', Build.appendAll m ys s = (.ok (), s') ∧ IsBareModule s' m l (xs ++ ys) := by
  induction ys generalizing s xs with
  | nil => exact ⟨s, rfl, by rwa [List.append_nil]⟩
  | cons y ys ih =>
    obtain ⟨s', hs', hbare⟩ := ih (h.append y)
    refine ⟨s', ?_, by rwa [List.append_assoc] at hbare⟩
    show Build.bind (Build.append m y) (fun _ => Build.appendAll m ys) s = _
    simp only [Build.bind, append_eq h.isContainer]
    exact hs'

/-- A module's fields as its constructor leaves them. -/
def moduleFields (name loc : Value) (l : Address) : List (Field × Value) :=
  [(.kind, .member (.kind .moduleRoot)), (.loc, loc), (.ref, .text ""), (.comment, .text ""),
   (.parent, .none), (.name, name), (.nodes, .ref l), (.position, .int 0)]

/-- The constructor of modules makes the node, then its list. It gives the module no
body. -/
theorem construct_moduleRoot (s : Store) (name loc : Value) :
    ∃ s', construct .moduleRoot [] [(.name, name), (.loc, loc)] s = (.ok s.nextAddress, s') ∧
      s'.cell? s.nextAddress
        = some (.node ⟨.moduleRoot, 0, moduleFields name loc (s.nextAddress + 1)⟩) ∧
      s'.cell? (s.nextAddress + 1) = some (.list []) := by
  let a := s.nextAddress
  let s₁ := (s.push (.node ⟨.moduleRoot, 0, []⟩)).updateNode a fun n =>
    (Shared.baseFields loc .none).foldl (fun n e => n.set e.1 e.2) n
  let s₂ := (s₁.push (.list [])).updateNode a fun n =>
    [(Field.name, name), (.nodes, .ref s₁.nextAddress), (.position, .int 0)].foldl
      (fun n e => n.set e.1 e.2) n
  let s₃ := s₂.updateNode a fun n => n.set .kind (.member (.kind .moduleRoot))
  have hnext : s₁.nextAddress = a + 1 := by
    simp only [s₁, Store.nextAddress_updateNode, Store.nextAddress_push, a]
  have hne : a + 1 ≠ a := Nat.succ_ne_self a
  have h₁ := Store.cell?_updateNode_self (Store.cell?_push_next s (.node ⟨.moduleRoot, 0, []⟩))
    fun n => (Shared.baseFields loc .none).foldl (fun n e => n.set e.1 e.2) n
  have h₂ := Store.cell?_updateNode_self
    ((Store.cell?_push_of_lt s₁ (.list []) a (hnext ▸ Nat.lt_succ_self a)).trans h₁)
    fun n => [(Field.name, name), (.nodes, .ref s₁.nextAddress), (.position, .int 0)].foldl
      (fun n e => n.set e.1 e.2) n
  have h₃ := Store.cell?_updateNode_self h₂ fun n => n.set .kind (.member (.kind .moduleRoot))
  refine ⟨s₃, rfl, ?_, ?_⟩
  · rw [← show s₁.nextAddress = s.nextAddress + 1 from hnext]
    exact h₃
  · show s₃.cell? (a + 1) = _
    rw [Store.cell?_updateNode_of_ne hne, Store.cell?_updateNode_of_ne hne, ← hnext]
    exact Store.cell?_push_next ..

/-- A new module, with nodes added to it. -/
def moduleWith (name loc : Value) (xs : List Value) : Build Value := do
  let a ← construct .moduleRoot [] [(.name, name), (.loc, loc)]
  appendAll (.ref a) xs
  return .ref a

/-- Every module that is built and filled is bare. -/
theorem isBareModule_moduleWith (s : Store) (name loc : Value) (xs : List Value) :
    ∃ m l s', moduleWith name loc xs s = (.ok m, s') ∧ IsBareModule s' m l xs := by
  obtain ⟨s₁, hbuilt, hnode, hlist⟩ := construct_moduleRoot s name loc
  have hn : s₁.nodeOf? (.ref s.nextAddress)
      = some ⟨.moduleRoot, 0, moduleFields name loc (s.nextAddress + 1)⟩ := by
    simp only [Store.nodeOf?, Store.node?, hnode]
  have hform : s₁.formOf? (.ref s.nextAddress) = some .moduleRoot := by
    simp only [Store.formOf?, hn, Option.map_some]
  have hnew : IsBareModule s₁ (.ref s.nextAddress) (s.nextAddress + 1) [] :=
    ⟨hform, by rw [hn]; rfl, ⟨by rw [hform]; decide, run_field_of_get? hn rfl rfl, hlist⟩⟩
  obtain ⟨s₂, happend, hbare⟩ := hnew.appendAll xs
  refine ⟨.ref s.nextAddress, s.nextAddress + 1, s₂, ?_, hbare⟩
  show Build.bind (construct .moduleRoot [] [(.name, name), (.loc, loc)])
    (fun a => Build.bind (appendAll (.ref a) xs) fun _ => Build.pure (Value.ref a)) s = _
  simp only [Build.bind, hbuilt, happend, Build.pure]

end Build

namespace Target.Convert

open Look Build

variable {s : Store} {m : Value} {l : Address} {xs : List Value}

/-! ## What a module shows -/

/-- A module without a body of its own shows the empty body, whatever is in it. -/
theorem run_term_of_isBareModule (h : IsBareModule s m l xs) :
    run (term m) s = .ok (.moduleRoot [.pass]) := by
  obtain ⟨n, hn, hform⟩ := Option.map_eq_some_iff.mp h.isModule
  have hget : n.get? .body = none := by
    have hbody := h.lacksBody
    rwa [hn, Option.bind_some] at hbody
  have hmissing : run (field? m .body) s = .ok none := by
    refine run_field?_of_missing hn ?_ hget ?_ (by decide)
    · rw [hform]
      rfl
    · rw [hform]
      rfl
  rw [run_term]
  refine run_step (m := ⟨.oneOf ["Module"], moduleRoot⟩) hn (by rw [hform]; rfl) ?_ rfl
  simp only [moduleRoot, run_bind, hmissing, ok_bind, run_pure]

/-- **Modules.** Every module that is built and then filled is bare and has the nodes
that were added, in their order.

Of a bare module, however it came about: the body that its nodes make is the one that
any block with the same nodes shows, and the module shows it exactly if it is the
empty body. A module shows the empty body always, so no two of them differ. -/
theorem module_shows_nodes_iff (s : Store) :
    (∀ name loc xs, ∃ m l s', moduleWith name loc xs s = (.ok m, s') ∧ IsBareModule s' m l xs) ∧
    ∀ m l xs, IsBareModule s m l xs →
      ∃ body, run (block (toDepth s.cells.size) m) s = .ok body ∧
        (∀ b k, IsContainer s b k xs → run (block (toDepth s.cells.size) b) s = .ok body) ∧
        (run (term m) s = .ok (.moduleRoot body) ↔ body = [.pass]) ∧
        ∀ m' l' ys, IsBareModule s m' l' ys → run (term m') s = run (term m) s := by
  refine ⟨isBareModule_moduleWith s, fun m l xs h => ?_⟩
  refine ⟨bodyOf (toDepth s.cells.size) s xs, run_block h.isContainer,
    fun b k hb => run_block hb, ?_, ?_⟩
  · rw [run_term_of_isBareModule h]
    constructor
    · intro heq
      exact (Term.moduleRoot.inj (Except.ok.inj heq)).symm
    · intro heq
      rw [heq]
  · intro m' l' ys h'
    rw [run_term_of_isBareModule h', run_term_of_isBareModule h]

/-- A module with one statement in it, which leaves a loop. -/
def leavingModule : Build Value := do
  let leaving ← construct .breakStmt [] []
  moduleWith (.text "main") (.ref Shared.noPlace) [.ref leaving]

/-- The store with that module in it. -/
def leavingStore : Store :=
  (leavingModule Store.initial).2

/-- What the constructors left behind and what becomes of it, found by running them once. -/
theorem leavingStore_nodes :
    (leavingModule Store.initial).1 = .ok (.ref 22) ∧
    IsBareModule leavingStore (.ref 22) 23 [.ref 21] ∧
    (match run (block (toDepth leavingStore.cells.size) (.ref 22)) leavingStore with
      | .ok [.breakLoop] => true
      | _ => false) = true := by
  decide +kernel

/-- Its one node makes a body that the module does not show. -/
theorem leavingModule_hides_node : (leavingModule Store.initial).1 = .ok (.ref 22) ∧
    run (block (toDepth leavingStore.cells.size) (.ref 22)) leavingStore = .ok [.breakLoop] ∧
    run (term (.ref 22)) leavingStore = .ok (.moduleRoot [.pass]) := by
  obtain ⟨hbuilt, hbare, hshape⟩ := leavingStore_nodes
  refine ⟨hbuilt, ?_, run_term_of_isBareModule hbare⟩
  split at hshape
  · next heq => exact heq
  · exact absurd hshape (by decide)

end ProgramTree.Target.Convert
