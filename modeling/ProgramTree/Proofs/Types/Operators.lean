/-
Operators that can be made.

A constructor that only starts its node, sets fields and makes new nodes goes well whatever the
store is, and so does one that adds its node to a container. What can go wrong with a binary
operator is the type of an operand. If both types are data types that overload no operators
themselves, then the operator is made, and its type is the wider one of the two, the left one
if none is wider (`construct_operator`). If one of them is no data type, it is not made
(`construct_operator_inv`).
-/
import ProgramTree.Proofs.Built

namespace ProgramTree

open Look

/-! ## Types and their sizes -/

namespace Store

variable {s t : Store} {v w l r : Value}

/-- The type of a value, if it is a data type that overloads no operators itself. -/
structure HasType (s : Store) (v w : Value) : Prop where
  read : run (field v .type) s = .ok w
  data : s.isForm w .dataType = true
  plain : s.isForm w .dataTypeOps = false

/-- The size in bytes that a type has from its form. -/
def byteSize (s : Store) (w : Value) : Int :=
  ((s.formOf? w).bind Form.byteSize?).getD 0

/-- The larger one of two types, the left one if they are of one size. -/
def wider (s : Store) (l r : Value) : Value :=
  if s.byteSize l < s.byteSize r then r else l

theorem wider_eq_or (s : Store) (l r : Value) : s.wider l r = l ∨ s.wider l r = r := by
  rw [wider]
  split
  · exact .inr rfl
  · exact .inl rfl

/-- What has a type is a node. -/
theorem exists_node_of_type (h : run (field v .type) s = .ok w) : ∃ n, s.nodeOf? v = some n := by
  cases hn : s.nodeOf? v with
  | some n => exact ⟨n, rfl⟩
  | none =>
    simp only [field, computedPath?, run_bind, run_node?, hn, ok_bind, run_pure,
      Option.bind_none] at h
    cases v with
    | ref a =>
      simp only [plainField, run_bind, run_node?, hn, ok_bind] at h
      exact absurd h Build.run_lacks_ne
    | _ => exact absurd h Build.run_lacks_ne

theorem Kept.nodeOf? (hkept : s.Kept t) {n : Node} (h : s.nodeOf? v = some n) :
    t.nodeOf? v = some n := by
  cases v with
  | ref a => exact hkept a n h
  | _ => cases h

theorem Kept.trans {u : Store} (hst : s.Kept t) (htu : t.Kept u) : s.Kept u := fun b n hn =>
  htu b n (hst b n hn)

/-- The form of a node that is kept is the same. -/
theorem Kept.isForm (hkept : s.Kept t) {f g : Form} (h : s.isForm v f = true) :
    t.isForm v g = s.isForm v g := by
  obtain ⟨k, hk, -⟩ := isForm_iff.mp h
  obtain ⟨n, hn, -⟩ := Option.map_eq_some_iff.mp hk
  simp only [Store.isForm, formOf?, hkept.nodeOf? hn, hn]

/-- The type of a node that is kept is the same. -/
theorem Kept.run_type (hkept : s.Kept t) (h : run (field v .type) s = .ok w) :
    run (field v .type) t = .ok w := by
  obtain ⟨n, hn⟩ := exists_node_of_type h
  rw [← h]
  have hcomputed : n.form.computed? .type = none := by simp [Form.computed?]
  cases v with
  | ref a =>
    simp only [field, computedPath?, plainField, run_bind, run_node?, hn, hkept.nodeOf? hn, ok_bind,
      run_pure, Option.bind_some, hcomputed]
    rw [field, computedPath?] at h
    simp only [run_bind, run_node?, hn, ok_bind, run_pure, Option.bind_some, hcomputed, plainField]
      at h
    cases hget : n.get? .type with
    | some x => rfl
    | none =>
      simp only [hget] at h
      cases hlent : n.form.lent? .type with
      | some x => rfl
      | none =>
        simp only [hlent] at h
        exact absurd h Build.run_lacks_ne
  | _ => cases hn

theorem HasType.kept (h : s.HasType v w) (hkept : s.Kept t) : t.HasType v w where
  read := hkept.run_type h.read
  data := (hkept.isForm h.data).trans h.data
  plain := (hkept.isForm h.data).trans h.plain

theorem Kept.byteSize (hkept : s.Kept t) {f : Form} (h : s.isForm w f = true) :
    t.byteSize w = s.byteSize w := by
  obtain ⟨k, hk, -⟩ := isForm_iff.mp h
  obtain ⟨n, hn, -⟩ := Option.map_eq_some_iff.mp hk
  simp only [Store.byteSize, formOf?, hkept.nodeOf? hn, hn]

end Store

/-- Data types have a size, and lend it to their nodes. -/
theorem Form.lent?_byteSize {f : Form} (h : f.isA .dataType = true) :
    ∃ n, f.byteSize? = some n ∧ f.lent? .byteSize = some (.int n) ∧
      .byteSize ∉ f.kept.map Prod.fst := by
  have hall : ∀ f : Form, f.isA .dataType = true → f.byteSize?.isSome = true ∧
      f.lent? .byteSize = f.byteSize?.map .int ∧ .byteSize ∉ f.kept.map Prod.fst := by
    intro f
    cases f <;> decide
  obtain ⟨hsome, hlent, hkept⟩ := hall f h
  obtain ⟨n, hn⟩ := Option.isSome_iff_exists.mp hsome
  exact ⟨n, hn, by rw [hlent, hn, Option.map_some], hkept⟩

/-- In a built store no data type has a size of its own, also later. -/
theorem Built.run_byteSize {s t : Store} {w : Value} (hs : Built s)
    (hw : s.isForm w .dataType = true) (hkept : s.Kept t) :
    run (field w .byteSize) t = .ok (.int (s.byteSize w)) := by
  obtain ⟨g, hg, hdata⟩ := Store.isForm_iff.mp hw
  obtain ⟨n, hn, rfl⟩ := Option.map_eq_some_iff.mp hg
  obtain ⟨k, hk, hlent, hnot⟩ := Form.lent?_byteSize hdata
  obtain ⟨a, rfl, hnode⟩ := Built.exists_node hn
  have hnone := hs.sound.lacking a n _ hnode n.form.byteSize_mem_telling hnot
  rw [run_field_of_lent? (hkept.nodeOf? hn) (by simp [Form.computed?]) hnone hlent]
  simp only [Store.byteSize, hg, Option.bind_some, hk, Option.getD_some]

/-- In a built store the type that the constructor of a form makes is still there. -/
theorem Built.exists_type {s : Store} {v : Value} {f g : Form} (hs : Built s)
    (hv : s.formOf? v = some f) (hg : f.madeType? = some g) :
    ∃ w, run (field v .type) s = .ok w ∧ s.formOf? w = some g := by
  obtain ⟨n, hn, rfl⟩ := Option.map_eq_some_iff.mp hv
  obtain ⟨w, hw, hmeets⟩ := hs.run_field (f := .type) (h := .exactly g) hn
    (List.mem_append_right _ (by simp [hg])) (by simp [Form.computed?])
  exact ⟨w, hw, of_decide_eq_true hmeets⟩

namespace Build

variable {α β : Type} {s t : Store} {a : Address} {v w l r : Value} {form : Form}
  {args : Arguments} {given : List (Field × Value)}

/-! ## Builds that always go well -/

/-- A build that goes well in every store. -/
def Total (x : Build α) : Prop :=
  ∀ s, ∃ r t, x s = (.ok r, t)

theorem total_pure (r : α) : Total (pure r) := fun s => ⟨r, s, rfl⟩

theorem Total.bind {x : Build α} {f : α → Build β} (hx : Total x) (hf : ∀ r, Total (f r)) :
    Total (x >>= f) := by
  intro s
  obtain ⟨r, t, hr⟩ := hx s
  rw [andThen_of_eq hr]
  exact hf r t

theorem total_tempName : Total tempName := fun _ => ⟨_, _, rfl⟩

theorem total_new (c : Cell) : Total (new c) := fun _ => ⟨_, _, rfl⟩

theorem total_setField (a : Address) (f : Field) (v : Value) : Total (setField a f v) :=
  fun _ => ⟨_, _, rfl⟩

theorem total_setFields (a : Address) (fields : List (Field × Value)) :
    Total (setFields a fields) := fun _ => ⟨_, _, rfl⟩

/-- A node without a parent can always be started. -/
theorem total_newBare (form : Form) : Total (newBare form) :=
  (total_new _).bind fun a => Total.bind ((total_setFields a _).bind fun _ => total_pure _)
    fun _ => total_pure _

/-- A container takes any node. -/
theorem append_goes (hv : Hint.growing.meets s v = true) (x : Value) :
    ∃ t, append v x s = (.ok (), t) := by
  obtain ⟨b, n, l, xs, rfl, hn, hisA, hl, -, hxs, -⟩ := growing_inv hv
  exact ⟨_, append_eq (isContainer_of_get? hn hisA hl hxs) x⟩

/-- A node without a parent, or with a container as its parent, can be started. -/
theorem startNode_goes (hparent : (Hint.maybe .growing).meets s (args.get .parent) = true) :
    ∃ t, startNode a args s = (.ok (), t) := by
  obtain ⟨u, hu, hext⟩ : ∃ u, setFields a (Shared.baseFields
      ((args.lookup .loc).getD (.ref Shared.noPlace)) (args.get .parent)) s = (.ok (), u) ∧
      s.Extends u := by
    refine ⟨_, rfl, Store.extends_updateNode a (fun _ => rfl) fun n w hw => ?_⟩
    simp only [Shared.baseFields, List.foldl, Node.get?_set]
    simpa using hw
  have hrest : startNode a args s =
      (if args.get .parent ≠ .none then append (args.get .parent) (.ref a) else pure ()) u :=
    andThen_of_eq hu
  rw [hrest]
  by_cases hnone : args.get .parent = .none
  · rw [if_neg (not_not_intro hnone)]
    exact ⟨u, rfl⟩
  · rw [if_pos hnone]
    simp only [Hint.maybe, Hint.meets, Bool.or_eq_true, decide_eq_true_eq, hnone, false_or]
      at hparent
    exact append_goes (Hint.meets_extends (h := .growing) hext hparent) (.ref a)

theorem startType_goes (hparent : (Hint.maybe .growing).meets s (args.get .parent) = true) :
    ∃ t, startType a args s = (.ok (), t) := by
  obtain ⟨t, ht⟩ := startNode_goes (a := a) hparent
  have hrest : Total (do
      let name ← tempName
      setField a .name (.text name)
      let type ← newBare .exprType
      setField a .type (.ref type)) :=
    total_tempName.bind fun _ => (total_setField a _ _).bind fun _ =>
      (total_newBare _).bind fun _ => total_setField a _ _
  obtain ⟨_, u, hu⟩ := hrest t
  exact ⟨u, (andThen_of_eq ht).trans hu⟩

/-- A plain data type can always be made. -/
theorem startType_push (hparent : (Hint.maybe .growing).meets s (args.get .parent) = true)
    (form : Form) :
    ∃ t, startType s.nextAddress args (s.push (.node ⟨form, 0, []⟩)) = (.ok (), t) :=
  startType_goes (Hint.meets_extends (h := .maybe .growing) (Store.extends_push s _) hparent)

theorem total_newType : Total (newType .dataType) := by
  refine (total_new _).bind fun a => Total.bind (fun s => ⟨(), ?_⟩) fun _ => total_pure _
  exact startType_goes rfl

theorem run_type_of_pinned (h : t.Pinned a fun n => n.Has form [(.type, w)]) :
    run (field (.ref a) .type) t = .ok w := by
  obtain ⟨n, hn, -, hfields⟩ := h
  exact run_field_of_get? hn (by simp [Form.computed?]) (hfields (.type, w) (by simp))

/-! ## Binary operators -/

theorem still_field? (v : Value) (f : Field) : Still (field? v f) := by
  refine still_rescue ((still_field v f).bind fun _ => still_pure _) fun e => ?_
  split
  · exact still_pure _
  · exact still_fail _

/-- Operands with data types: the rest is up to the types. -/
theorem typeOperator_eq {fuel : Nat} {lhs rhs : Value} (hl : run (field lhs .type) s = .ok l)
    (hr : run (field rhs .type) s = .ok r) (hdata : s.isForm l .dataType = true)
    (hdata' : s.isForm r .dataType = true) :
    typeOperator fuel a lhs rhs s = typeRest fuel a l r s := by
  have hisA : ∀ {v}, s.isForm v .dataType = true → look (isA v .dataType) s = (.ok true, s) :=
    fun h => look_of_still (still_isA _ _) (by rw [run_isA]; exact congrArg _ h)
  have hright := look_of_still (still_field rhs .type) hr
  refine (andThen_of_eq (look_of_still (still_field lhs .type) hl)).trans ?_
  refine (andThen_of_eq (hisA hdata)).trans ?_
  refine (andThen_of_eq hright).trans ((andThen_of_eq (hisA hdata')).trans ?_)
  rw [typeFrom_true]
  exact andThen_of_eq hright

theorem run_widerType {m n : Int} (hl : run (field l .byteSize) s = .ok (.int m))
    (hr : run (field r .byteSize) s = .ok (.int n)) :
    run (widerType l r) s = .ok (if m < n then r else l) := by
  simp only [widerType, run_bind, hl, hr, ok_bind, larger, run_pure, decide_eq_true_eq]

/-- Types that overload nothing: the operator gets the wider one. -/
theorem typeRest_plain {fuel : Nat} {m n : Int} (hl : s.isForm l .dataTypeOps = false)
    (hr : s.isForm r .dataTypeOps = false) (hm : run (field l .byteSize) s = .ok (.int m))
    (hn : run (field r .byteSize) s = .ok (.int n)) :
    typeRest fuel a l r s = setField a .type (if m < n then r else l) s := by
  have hoverloads : ∀ {v}, s.isForm v .dataTypeOps = false →
      look (overloads v) s = (.ok false, s) :=
    fun h => look_of_still (still_isA _ _) (by rw [overloads, run_isA]; exact congrArg _ h)
  refine (andThen_of_eq (hoverloads hl)).trans ((andThen_of_eq (hoverloads hr)).trans ?_)
  rw [Bool.or_false, if_neg Bool.false_ne_true]
  by_cases hlr : l = r
  · rw [if_pos hlr, ← hlr, ite_self]
  · rw [if_neg hlr]
    exact andThen_of_eq (look_of_still (still_widerType l r) (run_widerType hm hn))

theorem fill_operator (hform : form.isA .binaryOp = true) (a : Address) (args : Arguments)
    (rest : List Value) : fill a form args rest = (do
      startType a args
      fillOperator a (operatorCode form args) (args.get .lhs) (args.get .rhs)) := by
  have hspecial : form ∉ special := by
    have hall : ∀ f ∈ special, f.isA .binaryOp = false := by decide
    intro hmem
    rw [hall form hmem] at hform
    cases hform
  rw [fill_ordinary hspecial, fillOrdinary, if_pos hform]

/-- An operator has its code and its operands, whatever its type comes out as. -/
theorem fills_operator (hform : form.isA .binaryOp = true) (a : Address) (args : Arguments) :
    Fills a form [] (operatorFields (operatorCode form args) (args.get .lhs) (args.get .rhs))
      (fill a form args []) := by
  rw [fill_operator hform]
  refine (fills_startType args).bind fun _ => ?_
  exact (fills_of_pins fun _ _ _ => pins_look still_store).bind fun _ => fills_fillBinary ..

/-- An operator that was made up to its type: the operands are in their fields, and what was
there is kept. -/
structure Untyped (s t : Store) (form : Form) (args : Arguments) : Prop where
  kept : s.Kept t
  pinned : t.Pinned s.nextAddress fun n => n.Has form []
  rest : ∀ given, Arguments.fill form given = .ok args → ∃ fuel, construct form [] given s =
    (typeOperator fuel s.nextAddress (args.get .lhs) (args.get .rhs) >>= fun _ =>
      pure s.nextAddress) t

/-- An operator can be made up to its type. -/
theorem exists_untyped (hform : form.isA .binaryOp = true)
    (hparent : (Hint.maybe .growing).meets s (args.get .parent) = true) :
    ∃ t, Untyped s t form args := by
  let fields := operatorFields (operatorCode form args) (args.get .lhs) (args.get .rhs)
  obtain ⟨u, hu⟩ := startType_push hparent form
  obtain ⟨t, ht⟩ : ∃ t, setFields s.nextAddress fields u = (.ok (), t) := ⟨_, rfl⟩
  have hdone := (andThen_of_eq (f := fun _ => setFields s.nextAddress fields) hu).trans ht
  have hstart : Fills s.nextAddress form [] [] (startType s.nextAddress args) :=
    fills_startType args
  have hfields : Fills s.nextAddress form [] fields (setFields s.nextAddress fields) :=
    fills_setFields (by simp [fields, operatorFields])
  have hfills := hstart.bind fun _ => hfields
  obtain ⟨n, hn, hhas, -⟩ := hfills.2 _ _ _ hdone (pinned_push s form)
  refine ⟨t, kept_of_pins hfills.1 hdone, ⟨n, hn, hhas, by simp⟩, fun given hargs =>
    ⟨u.cells.size, ?_⟩⟩
  rw [construct, hargs]
  refine (andThen_of_eq rfl).trans ?_
  rw [fill_operator hform, bind_assoc]
  refine (andThen_of_eq hu).trans ?_
  rw [fillOperator, bind_assoc]
  refine (andThen_of_eq rfl).trans ?_
  rw [fillBinary_succ, bind_assoc]
  exact andThen_of_eq ht

/-- **Operators.** An operator between operands with types is made, and its type is the wider
one of the two. -/
theorem construct_operator (hs : Built s) (hform : form.isA .binaryOp = true)
    (hargs : Arguments.fill form given = .ok args)
    (hparent : (Hint.maybe .growing).meets s (args.get .parent) = true)
    (hl : s.HasType (args.get .lhs) l) (hr : s.HasType (args.get .rhs) r) :
    ∃ a t, construct form [] given s = (.ok a, t) ∧ s.Kept t ∧
      t.HasType (.ref a) (s.wider l r) := by
  obtain ⟨u, hu⟩ := exists_untyped hform hparent
  obtain ⟨fuel, hrest⟩ := hu.rest given hargs
  have hl' := hl.kept hu.kept
  have hr' := hr.kept hu.kept
  have htype : typeOperator fuel s.nextAddress (args.get .lhs) (args.get .rhs) u =
      setField s.nextAddress .type (s.wider l r) u := by
    rw [typeOperator_eq hl'.read hr'.read hl'.data hr'.data]
    exact typeRest_plain hl'.plain hr'.plain (hs.run_byteSize hl.data hu.kept)
      (hs.run_byteSize hr.data hu.kept)
  obtain ⟨t, ht⟩ : ∃ t, setField s.nextAddress .type (s.wider l r) u = (.ok (), t) := ⟨_, rfl⟩
  have hmake : construct form [] given s = (.ok s.nextAddress, t) :=
    hrest.trans (andThen_of_eq (htype.trans ht))
  have hkept := (construct_eq_ok hargs (fun a => fills_operator hform a args) hmake).1
  have hread := run_type_of_pinned ((fills_setField .type _).2 _ _ _ ht hu.pinned)
  refine ⟨_, t, hmake, hkept, ?_⟩
  rcases s.wider_eq_or l r with h | h
  · rw [h] at hread ⊢
    exact ⟨hread, (hl.kept hkept).data, (hl.kept hkept).plain⟩
  · rw [h] at hread ⊢
    exact ⟨hread, (hr.kept hkept).data, (hr.kept hkept).plain⟩

/-- An operator is made only between operands whose types, being nodes, are data types. -/
theorem construct_operator_inv (hform : form.isA .binaryOp = true)
    (hargs : Arguments.fill form given = .ok args)
    (hparent : (Hint.maybe .growing).meets s (args.get .parent) = true)
    (hl : run (field (args.get .lhs) .type) s = .ok l) (hlnode : s.isForm l .node = true)
    (hr : run (field (args.get .rhs) .type) s = .ok r) (hrnode : s.isForm r .node = true)
    (h : construct form [] given s = (.ok a, t)) :
    s.isForm l .dataType = true ∧ s.isForm r .dataType = true := by
  obtain ⟨u, hu⟩ := exists_untyped hform hparent
  obtain ⟨fuel, hrest⟩ := hu.rest given hargs
  obtain ⟨_, v, htype, -⟩ := andThen_eq_ok.mp (hrest.symm.trans h)
  obtain ⟨l', r', hl', hr', hdata, hdata', -⟩ := typeOperator_inv htype
  obtain rfl : l = l' := Except.ok.inj ((hu.kept.run_type hl).symm.trans hl')
  obtain rfl : r = r' := Except.ok.inj ((hu.kept.run_type hr).symm.trans hr')
  exact ⟨(hu.kept.isForm hlnode).symm.trans hdata, (hu.kept.isForm hrnode).symm.trans hdata'⟩

/-! ## Groups -/

/-- **Groups.** A group around a value with a type is made, and has the type of the value. -/
theorem construct_group (hargs : Arguments.fill .parenthesizedExpr given = .ok args)
    (hparent : (Hint.maybe .growing).meets s (args.get .parent) = true)
    (hx : s.HasType (args.get .value) w) :
    ∃ a t, construct .parenthesizedExpr [] given s = (.ok a, t) ∧ s.Kept t ∧
      t.HasType (.ref a) w := by
  -- The last steps set the type, the value and the kind.
  let rest : Build Unit := do
    setField s.nextAddress .type w
    setField s.nextAddress .value (args.get .value)
    giveKind s.nextAddress .parenthesizedExpr
  have hrest : Fills s.nextAddress .parenthesizedExpr [] [(.type, w)] rest :=
    (fills_setField .type w).bind fun _ => (fills_setOther (by simp)).bind fun _ =>
      fills_setOther (by simp)
  have hstart : Fills s.nextAddress .parenthesizedExpr [] [] (do
      startType s.nextAddress args
      newType .dataType) :=
    (fills_startType args).bind fun _ => fills_of_pins fun _ _ _ => pins_newType _
  obtain ⟨u, hu⟩ := startType_push hparent .parenthesizedExpr
  obtain ⟨other, u', hu'⟩ := total_newType u
  have hstarted := (andThen_of_eq (f := fun _ => newType .dataType) hu).trans hu'
  obtain ⟨_, t, ht⟩ := ((total_setField s.nextAddress _ _).bind fun _ =>
    (total_setField s.nextAddress _ _).bind fun _ => total_setField _ _ _ : Total rest) u'
  have hread := look_of_still (still_field? _ _)
    (run_field?_of_ok ((kept_of_pins hstart.1 hstarted).run_type hx.read))
  have hmake : construct .parenthesizedExpr [] given s = (.ok s.nextAddress, t) := by
    rw [construct, hargs]
    refine (andThen_of_eq rfl).trans ?_
    rw [fill, bind_assoc]
    refine (andThen_of_eq hu).trans ?_
    rw [bind_assoc]
    refine (andThen_of_eq hu').trans ?_
    rw [bind_assoc]
    refine (andThen_of_eq hread).trans ?_
    exact andThen_of_eq ht
  have hdone := (andThen_of_eq (f := fun _ => rest) hstarted).trans ht
  have hkept := kept_of_pins (hstart.bind fun _ => hrest).1 hdone
  have hread' := run_type_of_pinned ((hstart.bind fun _ => hrest).2 _ _ _ hdone
    (pinned_push s .parenthesizedExpr))
  exact ⟨_, t, hmake, hkept, hread', (hx.kept hkept).data, (hx.kept hkept).plain⟩

end Build

end ProgramTree
