/-
What the constructors of operators leave behind.

A binary operator has a type only if the types of its operands are data types. Types that
overload operators are compared by making an operator of them, so filling an operator may
fill others first; the statement about all of them is by induction on how often.

A chain of comparisons takes its signs and its operands out of what it was given. The
signs go into a new list that is the list of no container, which keeps them as they are.
-/
import ProgramTree.Proofs.Making

namespace ProgramTree

open Look

namespace Build

variable {α β : Type} {D : Drafts} {F : Facts} {a : Address} {fields : List (Field × Hint)}

/-! ## What fields read as -/

/-- What forms lend is among the shared cells. -/
theorem holds_lent? {form : Form} {f : Field} {w : Value} (h : form.lent? f = some w) :
    Store.initial.holds w = true := by
  obtain ⟨g, -, hg⟩ := List.exists_of_findSome?_eq_some h
  unfold Form.ownLent? at hg
  split at hg
  all_goals first
    | exact Option.some.inj hg ▸ rfl
    | (obtain ⟨n, -, rfl⟩ := Option.map_eq_some_iff.mp hg; rfl)
    | cases hg

theorem run_lacks_ne {s : Store} {v : Value} {key : String} {r : α} :
    run (lacks v key : Look α) s ≠ .ok r := by
  intro h
  rw [lacks, run_bind] at h
  obtain ⟨name, -, hfail⟩ := bind_eq_ok.mp h
  cases hfail

theorem holds_plainField {s : Store} {v w : Value} {f : Field} (hs : Sound D s)
    (h : run (plainField v f) s = .ok w) : s.holds w = true := by
  cases v with
  | member m =>
    simp only [plainField, run_ite] at h
    split at h
    · cases h
      rfl
    · split at h
      · cases h
        rfl
      · exact absurd h run_lacks_ne
  | ref b =>
    simp only [plainField, run_bind, run_node?, ok_bind] at h
    cases hn : s.nodeOf? (.ref b) with
    | none =>
      rw [hn] at h
      exact absurd h run_lacks_ne
    | some n =>
      simp only [hn] at h
      cases hget : n.get? f with
      | some x =>
        simp only [hget] at h
        cases h
        exact hs.holds_get? hn hget
      | none =>
        simp only [hget] at h
        cases hlent : n.form.lent? f with
        | some x =>
          simp only [hlent] at h
          cases h
          exact hs.shared.holds (holds_lent? hlent)
        | none =>
          simp only [hlent, run_ite] at h
          split at h
          · cases h
            rfl
          · exact absurd h run_lacks_ne
  | _ => exact absurd h run_lacks_ne

/-- What a field reads as is there. -/
theorem holds_field {s : Store} {v w : Value} {f : Field} (hs : Sound D s)
    (h : run (field v f) s = .ok w) : s.holds w = true := by
  have hfollow : ∀ (path : List Field) (v w : Value), s.holds v = true →
      run (follow v path) s = .ok w → s.holds w = true := by
    intro path
    induction path with
    | nil =>
      intro v w hv hw
      cases hw
      exact hv
    | cons g path ih =>
      intro v w _ hw
      rw [follow, run_bind] at hw
      obtain ⟨u, hu, hrest⟩ := bind_eq_ok.mp hw
      exact ih u w (holds_plainField hs hu) hrest
  simp only [field, computedPath?, run_bind, run_node?, ok_bind, run_pure] at h
  cases hn : s.nodeOf? v with
  | none =>
    rw [hn] at h
    exact holds_plainField hs h
  | some n =>
    simp only [hn, Option.bind_some] at h
    cases hpath : n.form.computed? f with
    | none =>
      rw [hpath] at h
      exact holds_plainField hs h
    | some path =>
      rw [hpath] at h
      refine hfollow path v w ?_ h
      cases v with
      | ref b => exact Store.holds_of_cellOf? (Store.node?_eq_some.mp hn)
      | _ => rfl

/-! ## Binary operators -/

/-- A comparison of types that overload operators. -/
def compareTypes (fuel : Nat) (left right : Value) : Build Unit := do
  let b ← new (.node ⟨.binaryOp, 0, []⟩)
  startType b []
  if ← asksRight left right then fillBinary fuel b (.text "==") right left
  else fillBinary fuel b (.text "==") left right

/-- The last part of giving an operator its type, for operands with data types. -/
def typeRest (fuel : Nat) (a : Address) (left right : Value) : Build Unit := do
  if (← overloads left) || (← overloads right) then
    compareTypes fuel left right
    setField a .type left
  else if left = right then setField a .type left
  else setField a .type (← widerType left right)

theorem fails_typeFrom (fuel : Nat) (a : Address) (rhs left : Value) :
    Fails (typeFrom fuel a rhs left false) :=
  Fails.after (fun _ => Fails.after (fun _ => Fails.after (fun _ => fails_fail _) _) _) _

theorem typeFrom_true (fuel : Nat) (a : Address) (rhs left : Value) :
    typeFrom fuel a rhs left true = (do
      let right ← Look.field rhs .type
      typeRest fuel a left right) := by
  have hite : ∀ (c : Bool) (x y : Build Unit) (f : Unit → Build Unit),
      (if c = true then x else y) >>= f = if c = true then x >>= f else y >>= f := by
    intro c x y f
    cases c with
    | true => rfl
    | false => rfl
  simp only [typeFrom, typeRest, compareTypes, Bool.not_true, Bool.false_eq_true, if_false,
    bind_assoc, hite]

/-- An operator gets a type only if the types of its operands are data types. -/
theorem typeOperator_inv {fuel : Nat} {lhs rhs : Value} {s t : Store}
    (h : typeOperator fuel a lhs rhs s = (.ok (), t)) :
    ∃ left right, run (field lhs .type) s = .ok left ∧ run (field rhs .type) s = .ok right ∧
      s.isForm left .dataType = true ∧ s.isForm right .dataType = true ∧
      typeRest fuel a left right s = (.ok (), t) := by
  have hstill : ∀ {α : Type} {x : Look α} {r : α} {u : Store}, Still x → look x s = (.ok r, u) →
      run x s = .ok r ∧ u = s := by
    intro α x r u hx hlook
    rw [hx.look_eq] at hlook
    exact ⟨(Prod.mk.inj hlook).1, (Prod.mk.inj hlook).2.symm⟩
  obtain ⟨left, u, hleft, hrest₁⟩ := andThen_eq_ok.mp h
  obtain ⟨hleft, rfl⟩ := hstill (still_field lhs .type) hleft
  obtain ⟨b, u', hb, hrest₂⟩ := andThen_eq_ok.mp hrest₁
  obtain ⟨hb, rfl⟩ := hstill (still_isA left .dataType) hb
  rw [run_isA] at hb
  have hdata : u'.isForm left .dataType = b := Except.ok.inj hb
  cases b with
  | false => exact absurd hrest₂ (fails_typeFrom fuel a rhs left u' () t)
  | true =>
    obtain ⟨right, v, hright, hrest₃⟩ := andThen_eq_ok.mp hrest₂
    obtain ⟨hright, rfl⟩ := hstill (still_field rhs .type) hright
    obtain ⟨typed, w, htyped, hrest₄⟩ := andThen_eq_ok.mp hrest₃
    obtain ⟨htyped, rfl⟩ := hstill (still_isA right .dataType) htyped
    rw [run_isA] at htyped
    have hdata' : w.isForm right .dataType = typed := Except.ok.inj htyped
    cases typed with
    | false => exact absurd hrest₄ (fails_typeFrom fuel a rhs left w () t)
    | true =>
      rw [typeFrom_true] at hrest₄
      obtain ⟨right', v, hright', hrest₅⟩ := andThen_eq_ok.mp hrest₄
      obtain ⟨hright', rfl⟩ := hstill (still_field rhs .type) hright'
      cases hright.symm.trans hright'
      exact ⟨left, right, hleft, hright, hdata, hdata', hrest₅⟩

/-- What is known of a binary operator before it has a type. -/
def operandHints (fields : List (Field × Hint)) : List (Field × Hint) :=
  putAll [(.opCode, .text), (.lhs, .node .dataType), (.rhs, .node .dataType),
    (.kind, .member .kind)] fields

/-- What is known of a binary operator. -/
def operatorHints (fields : List (Field × Hint)) : List (Field × Hint) :=
  put .type .anything (operandHints fields)

theorem leads_operands {op lhs rhs : Value} (hop : F.Gives .text op)
    (hlhs : F.Gives (.node .dataType) lhs) (hrhs : F.Gives (.node .dataType) rhs) :
    Leads (D.start a fields) F (setFields a (operatorFields op lhs rhs))
      (D.start a (operandHints fields)) fun _ => [] := by
  refine leads_setFields (.cons ⟨rfl, by simp, hop⟩ (.cons ⟨rfl, by simp, hlhs⟩ ?_))
  exact .cons ⟨rfl, by simp, hrhs⟩ (.cons ⟨rfl, by decide, fun _ _ _ => rfl⟩ .nil)

/-- A comparison of types is an operator of its own. -/
theorem leads_compareTypes {fuel : Nat} {left right : Value}
    (hfill : ∀ (D : Drafts) (F : Facts) b op l r, F.Gives .text op → F.Gives (.node .dataType) l →
      F.Gives (.node .dataType) r → Leads (D.start b typeHints) F (fillBinary fuel b op l r)
        (D.start b (operatorHints typeHints)) fun _ => [])
    (hleft : F.Gives (.node .dataType) left) (hright : F.Gives (.node .dataType) right) :
    Leads D F (compareTypes fuel left right) D fun _ => [] := by
  have hcovers : covers .binaryOp (operatorHints typeHints) = true := by decide
  refine leads_make hcovers fun b => ?_
  refine (leads_startType places_nil (gives_node_of_mem (List.mem_append_right _
    (List.mem_singleton_self _)) (by decide))).bind fun _ => ?_
  refine (leads_glance _).bind fun turned => ?_
  cases turned with
  | true =>
    exact hfill _ _ _ _ _ _ (fun _ _ _ => rfl) hright.append.append.append hleft.append.append.append
  | false =>
    exact hfill _ _ _ _ _ _ (fun _ _ _ => rfl) hleft.append.append.append hright.append.append.append

theorem widerType_inv {s : Store} {left right w : Value}
    (h : run (widerType left right) s = .ok w) : w = left ∨ w = right := by
  simp only [widerType, run_bind, run_pure] at h
  obtain ⟨m, -, h⟩ := bind_eq_ok.mp h
  obtain ⟨n, -, h⟩ := bind_eq_ok.mp h
  obtain ⟨b, -, h⟩ := bind_eq_ok.mp h
  cases b with
  | true =>
    cases h
    exact .inr rfl
  | false =>
    cases h
    exact .inl rfl

/-- The type of an operator. -/
theorem leads_typeRest {fuel : Nat} {left right : Value}
    (hcompare : Leads (D.start a fields) F (compareTypes fuel left right) (D.start a fields)
      fun _ => [])
    (hleft : F.Gives (.node .dataType) left) (hright : F.Gives (.node .dataType) right) :
    Leads (D.start a fields) F (typeRest fuel a left right)
      (D.start a (put .type .anything fields)) fun _ => [] := by
  refine (leads_glance _).bind fun l => ?_
  refine (leads_glance _).bind fun r => ?_
  split
  · refine (hcompare.mono (by simp)).bind fun _ => ?_
    exact leads_setField (by decide) hleft.anything.append.append.append
  · split
    · exact leads_setField (by decide) hleft.anything.append.append
    · refine (leads_look (G := fun w => [(.anything, w)]) fun s w hs hF hrun => ?_).bind fun w => ?_
      · intro e he
        obtain rfl := List.mem_singleton.mp he
        have hwider : w = left ∨ w = right := widerType_inv hrun
        rcases hwider with rfl | rfl
        · exact hleft.anything.append.append s hs.shared hF
        · exact hright.anything.append.append s hs.shared hF
      · exact leads_setField (by decide) (Facts.gives_of_mem (by simp))

/-- A binary operator is filled. The induction is on how often types may be compared. -/
theorem leads_fillBinary (fuel : Nat) {op lhs rhs : Value} (hop : F.Gives .text op)
    (hlhs : F.Gives (.node .dataType) lhs) (hrhs : F.Gives (.node .dataType) rhs) :
    Leads (D.start a fields) F (fillBinary fuel a op lhs rhs) (D.start a (operatorHints fields))
      fun _ => [] := by
  induction fuel generalizing D F a fields op lhs rhs with
  | zero => exact (fails_fail _).leads
  | succ fuel ih =>
    rw [fillBinary_succ]
    refine (leads_operands hop hlhs hrhs).bind fun _ => ?_
    intro s r t hs hF hx
    obtain ⟨left, right, -, -, hleft, hright, hrest⟩ := typeOperator_inv hx
    have hfacts : Facts.Hold [(.node .dataType, left), (.node .dataType, right)] s := by
      intro e he
      simp only [List.mem_cons, List.not_mem_nil, or_false] at he
      rcases he with rfl | rfl
      · exact hleft
      · exact hright
    have hl : Facts.Gives [(.node .dataType, left), (.node .dataType, right)] (.node .dataType)
        left := Facts.gives_of_mem (by simp)
    have hr : Facts.Gives [(.node .dataType, left), (.node .dataType, right)] (.node .dataType)
        right := Facts.gives_of_mem (by simp)
    exact leads_typeRest (leads_compareTypes (fun _ _ _ _ _ _ hop hl hr => ih hop hl hr) hl hr)
      hl hr s r t hs hfacts hrest

/-! ## Chains of comparisons -/

/-- What a walk meets in something finished that has items: nodes. -/
theorem items_contains {s : Store} {v : Value} (hs : Sound D s)
    (hv : (Hint.items .node).meets s v = true) (hfinished : ∀ b, v = .ref b → D b = none) :
    ∃ xs, Contains s v xs ∧ ∀ x ∈ xs, s.isForm x .node = true := by
  cases hlist : s.isForm v .nodeList with
  | false => exact items_inv hv hlist
  | true =>
    have hkept : ∀ f : Form, f.isA .nodeList = true → (.nodes, .nodes) ∈ f.kept := by
      intro f
      cases f <;> decide
    cases v with
    | ref b =>
      obtain ⟨n, hn, hisA⟩ := Store.isForm_ref.mp hlist
      obtain ⟨w, hw, hnodes⟩ := hs.get?_of_kept (hfinished b rfl) hn (hkept _ hisA)
      obtain ⟨l, xs, rfl, hxs, hnodes⟩ := Store.isListOfNodes_iff.mp hnodes
      exact ⟨xs, .container (isContainer_of_get? hn hisA hw hxs), hnodes⟩
    | _ => exact absurd hlist (by simp [Store.isForm, Store.formOf?, Store.nodeOf?])

/-- What is known of a chain of comparisons. -/
def comparisonHints (fields : List (Field × Hint)) : List (Field × Hint) :=
  put .left (.node .dataType) (put .comparators (.items .node) (put .ops .anything fields))

/-- The last part of filling a chain of comparisons. -/
theorem leads_fillLeft {ops ys : List Value} {left : Value}
    (hys : ∀ y ∈ ys, F.Gives (.node .node) y) (hleft : F.Gives (.node .dataType) left) :
    Leads (D.start a (put .ops .anything fields)) F (do
      setField a .comparators (← newList ys)
      if ops.length ≠ ys.length then fail .comparatorCount
      match ops.find? fun v => !comparisonSigns.any fun s => v = .text s with
      | some v => fail (.badComparison (← Look.text v))
      | none => setField a .left left) (D.start a (comparisonHints fields)) fun _ => [] := by
  refine (leads_newList (by decide) hys).bind fun l => ?_
  refine (leads_setField (h := .items .node) (by decide) (Facts.gives_of_mem (by simp))).bind
    fun _ => ?_
  dsimp only
  split
  · refine Fails.leads fun s r t h => ?_
    obtain ⟨w, u, hfail, -⟩ := andThen_eq_ok.mp h
    cases hfail
  · split
    · exact (Fails.after (fun _ => fails_fail _) _).leads
    · exact leads_setField (by decide) hleft.append.append

/-- The signs of a chain of comparisons go into a list of their own. -/
theorem setSigns_sound {s t : Store} {xs : List Value} (hs : Sound (D.start a fields) s)
    (hxs : xs.all Hint.isText = true)
    (h : (do setField a .ops (← newList xs)) s = ((.ok (), t) : Except Fault Unit × Store)) :
    Sound (D.start a (put .ops .anything fields)) t ∧ s.Extends t := by
  have htargets : (Cell.list xs).targets = [] := by
    refine List.filterMap_eq_nil_iff.mpr fun x hx => ?_
    have htext := List.all_eq_true.mp hxs x hx
    cases x with
    | ref b => cases htext
    | _ => rfl
  have hs₁ : Sound (D.start a fields) (s.push (.list xs)) :=
    hs.push (fun _ _ => rfl) (by rw [htargets]; simp) fun n hn => by cases hn
  have ht : ((s.push (.list xs)).updateNode a fun n => n.set .ops (.ref s.nextAddress)) = t :=
    (Prod.mk.inj h).2
  obtain ⟨hsound, hext⟩ := hs₁.setList (f := .ops) (h := .anything) (.inr rfl)
    (Store.cell?_push_next s _) hxs (hs.isUnused_next.push_list xs)
    (decide_eq_true (by simp [Store.push, Store.nextAddress]))
  rw [ht] at hsound hext
  exact ⟨hsound, (Store.extends_push s _).trans hext⟩

/-- A chain of comparisons is filled. -/
theorem fillComparison_sound {s t : Store} {args : Arguments} (hs : Sound (D.start a fields) s)
    (hops : Hint.words.meets s (args.get .ops) = true)
    (hcomparators : (Hint.items .node).meets s (args.get .comparators) = true)
    (hleft : s.isForm (args.get .left) .dataType = true)
    (hfinished : ∀ fields b, args.get .comparators = .ref b → D.start a fields b = none)
    (h : fillComparison a args s = (.ok (), t)) :
    Sound (D.start a (comparisonHints fields)) t ∧ s.Extends t := by
  -- The signs.
  obtain ⟨xs, hxs, htexts⟩ : ∃ xs, Contains s (args.get .ops) xs ∧ xs.all Hint.isText = true := by
    obtain ⟨c, xs, hc, hxs, hall⟩ := Store.allItems_iff.mp hops
    generalize args.get .ops = v at hc
    cases v with
    | ref b => exact ⟨xs, .plain hc hxs, List.all_eq_true.mpr hall⟩
    | _ => cases hc
  obtain ⟨ops, s₁, hlook, hrest₁⟩ := andThen_eq_ok.mp h
  obtain ⟨hrun, hs₁, hext₁⟩ := look_inv hs hlook
  cases (run_forEach_pure hxs).symm.trans hrun
  obtain ⟨l, s₂, hnew, hrest₂⟩ := andThen_eq_ok.mp hrest₁
  obtain ⟨_, s₃, hset, hrest₃⟩ := andThen_eq_ok.mp hrest₂
  obtain ⟨hs₃, hext₃⟩ := setSigns_sound hs₁ htexts (andThen_eq_ok.mpr ⟨l, s₂, hnew, hset⟩)
  -- The operands.
  have hext := hext₁.trans hext₃
  obtain ⟨ys, hys, hnodes⟩ := items_contains hs₃
    (Hint.meets_extends (h := .items .node) hext hcomparators) (hfinished _)
  obtain ⟨comparators, s₄, hlook₄, hrest₄⟩ := andThen_eq_ok.mp hrest₃
  obtain ⟨hrun₄, hs₄, hext₄⟩ := look_inv hs₃ hlook₄
  cases (run_forEach_pure hys).symm.trans hrun₄
  have hfacts : Facts.Hold (about (.node .node) ys ++ [(.node .dataType, args.get .left)]) s₄ := by
    have hys' : (about (.node .node) ys).Hold s₄ :=
      hold_about fun y hy => hext₄.isForm (hnodes y hy)
    refine hys'.append fun e he => ?_
    obtain rfl := List.mem_singleton.mp he
    exact (hext.trans hext₄).isForm hleft
  obtain ⟨ht, -, hext₅⟩ := leads_fillLeft
    (fun y hy => Facts.gives_of_mem (List.mem_append_left _ (List.mem_map_of_mem hy)))
    (Facts.gives_of_mem (List.mem_append_right _ (List.mem_singleton_self _)))
    s₄ () t hs₄ hfacts hrest₄
  exact ⟨ht, hext.trans (hext₄.trans hext₅)⟩

end Build

end ProgramTree
