/-
Conversions of core trees go well.

One level of a tree is the table of forms, each with its lemma (`step_gives`). Trees
of any depth follow by induction on their levels: trees of one shape convert to one
term (`SameShape.converts`), and a tree has the shape of itself. Because no tree has
more levels than the store has cells, the depth that the conversion of a store is
given is enough.

A term does not depend on the depth at which it is reached, so the nodes of a block
become in it the terms that they become on their own, and none of them is left out.
-/
import ProgramTree.Proofs.Core.Mirrors
import ProgramTree.Proofs.Core.Statements

open ProgramTree.Look ProgramTree.Target.Convert

namespace ProgramTree.Target

/-! ## One level -/

section Levels

variable {ι : Type} {s : ι → Store} {P : (ι → Value) → Prop} {ρ : (ι → Value) → Term}
  {v : ι → Value} {r : Role} {g : Form}

/-- **One level.** Nodes of the fragment that have the same shape become a term for their
place, if the nodes below them do. -/
theorem step_gives (hρ : Fitting s P ρ) {reqs : List Requirement} (hv : HasForm s v g)
    (hs : schema g = some (r, reqs)) (h : ∀ q ∈ reqs, q.Shared s P v) : Gives s P ρ r v := by
  cases g <;> cases hs
  all_goals try simp only [List.forall_mem_cons] at h
  case int8 | int16 | int32 | int64 | uint8 | uint16 | uint32 | uint64 | uint128 | float16
      | float32 | float64 | complex32 | complex64 | utf8Char | utf8String | date | dateTime
      | time | timestamp | literalDateTime | literalTime | literalTimestamp | literalComplex =>
    exact namedType_gives hv rfl
  case dataType | anyType | noneType | boolean | collectionType | listType | setType | dictType
      | tupleType | number | integer | unsignedInteger | signedInteger | int128 | floating
      | complex | string | temporal =>
    exact dataType_gives hv rfl h.1
  case variableUse => exact variableUse_gives hv h.1
  case identifier => exact identifier_gives hv h.1
  case literalBoolean | literalInt8 | literalInt16 | literalInt32 | literalInt64 | literalInt128
      | literalUInt8 | literalUInt16 | literalUInt32 | literalUInt64 | literalUInt128
      | literalFloat16 | literalFloat32 | literalFloat64 | literalString =>
    exact valueLiteral_gives hv rfl h.1
  case literalUTF8Char | literalUTF8String => exact textLiteral_gives hv rfl h.1
  case literalDate => exact literalDate_gives hv h.1
  case literalNone => exact literalNone_gives hv
  case ellipsis => exact ellipsis_gives hv
  case literalComplex32 | literalComplex64 => exact complexLiteral_gives hv rfl h.1
  case literalList => exact collection_gives hρ hv rfl (fun _ => rfl) (fun _ => .list) h.1
  case literalTuple => exact collection_gives hρ hv rfl (fun _ => rfl) (fun _ => .tuple) h.1
  case literalSet => exact collection_gives hρ hv rfl (fun _ => rfl) (fun _ => .set) h.1
  case literalDict => exact dictionary_gives hρ hv h.1
  case binaryOp | boolBinaryOp => exact binary_gives hρ hv rfl h.1 h.2.1 h.2.2.1
  case andOp | orOp =>
    exact ofOperands_gives hρ hv rfl (fun _ _ => rfl) (fun _ _ => grammatical_logical _) h.1 h.2.1
  case nandOp | norOp =>
    exact ofOperands_gives hρ hv rfl (fun _ _ => rfl)
      (fun _ _ hl hr => .unary (grammatical_logical _ hl hr)) h.1 h.2.1
  case xorOp => exact ofOperands_gives hρ hv rfl (fun _ _ => rfl) (fun _ _ => .binary) h.1 h.2.1
  case xnorOp =>
    exact ofOperands_gives hρ hv rfl (fun _ _ => rfl) (fun _ _ hl hr => .unary (.binary hl hr)) h.1
      h.2.1
  case walrusOp => exact walrus_gives hρ hv h.1 h.2.1
  case unaryOp | boolUnaryOp => exact unary_gives hρ hv rfl h.1 h.2.1
  case notOp => exact negation_gives hρ hv h.1
  case compareOp => exact compare_gives hρ hv h.1 h.2.1
  case parenthesizedExpr =>
    exact ofValue_gives hρ hv rfl (fun _ ht => by cases ht <;> rfl) (fun _ => id) h.1
  case awaitExpr => exact ofValue_gives hρ hv rfl (fun _ _ => rfl) (fun _ => .await) h.1
  case yieldFromExpr => exact ofValue_gives hρ hv rfl (fun _ _ => rfl) (fun _ => .yieldFrom) h.1
  case starred => exact ofValue_gives hρ hv rfl (fun _ _ => rfl) (fun _ => .starred) h.1
  case yieldExpr => exact ofOptionalValue_gives hρ hv rfl (fun _ => rfl) (fun _ => .yield) h.1
  case functionCall => exact call_gives hρ hv h.1 h.2.1
  case subscriptExpr => exact subscript_gives hρ hv h.1 h.2.1 h.2.2.1 h.2.2.2.1 h.2.2.2.2.1
  case typeCastExpr => exact typeCast_gives hρ hv h.1 h.2.1
  case lambdaExpr => exact lambda_gives hρ hv h.1 h.2.1
  case ifExpr => exact conditional_gives hρ hv h.1 h.2.1 h.2.2.1
  case listComprehension =>
    exact comprehension_gives hρ hv rfl (fun _ _ => rfl) (fun _ _ => .listComp) h.1 h.2.1
  case setComprehension =>
    exact comprehension_gives hρ hv rfl (fun _ _ => rfl) (fun _ _ => .setComp) h.1 h.2.1
  case generatorExpr =>
    exact comprehension_gives hρ hv rfl (fun _ _ => rfl) (fun _ _ => .generator) h.1 h.2.1
  case comprehensionClause => exact clause_gives hρ hv h.1 h.2.1 h.2.2.1 h.2.2.2.1
  case argument => exact argument_gives hρ hv h.1 h.2.1
  case arguments => exact arguments_gives hρ hv h.1
  case functionPrototype => exact prototype_gives hρ hv h.1 h.2.1 h.2.2.1
  case functionDef => exact functionDef_gives hρ hv h.1 h.2.1 h.2.2.1 h.2.2.2.1
  case functionAsyncDef => exact asyncFunctionDef_gives hρ hv h.1 h.2.1 h.2.2.1 h.2.2.2.1
  case classDefStmt => exact classDef_gives hρ hv h.1 h.2.1 h.2.2.1
  case enumDeclStmt => exact enumDecl_gives hv h.1 h.2.1
  case structDeclStmt | structDefStmt => exact structDecl_gives hρ hv rfl h.1 h.2.1
  case variableDeclaration => exact declaration_gives hρ hv h.1 h.2.1 h.2.2.1
  case variableAssignment => exact variableAssignment_gives hρ hv h.1 h.2.1
  case assignmentExpr => exact assignment_gives hρ hv h.1 h.2.1
  case augAssign => exact augmented_gives hρ hv h.1 h.2.1 h.2.2.1
  case functionReturn =>
    exact ofOptionalValue_gives hρ hv rfl (fun _ => rfl) (fun _ => .giveBack) h.1
  case yieldStmt =>
    exact ofOptionalValue_gives hρ hv rfl (fun _ => rfl) (fun _ ht => .expr (.yield ht)) h.1
  case breakStmt => exact gives_of_rule (t := .breakLoop) hv rfl rfl .breakLoop fun _ _ _ => rfl
  case continueStmt =>
    exact gives_of_rule (t := .continueLoop) hv rfl rfl .continueLoop fun _ _ _ => rfl
  case deleteStmt => exact delete_gives hρ hv h.1
  case aliasExpr => exact importName_gives hv h.1 h.2.1
  case importStmt => exact importStmt_gives hρ hv h.1
  case importFromStmt => exact importFrom_gives hρ hv h.1 h.2.1 h.2.2.1
  case ifStmt => exact ifStmt_gives hρ hv h.1 h.2.1 h.2.2.1
  case whileStmt => exact whileStmt_gives hρ hv h.1 h.2.1
  case doWhileStmt => exact doWhileStmt_gives hρ hv h.1 h.2.1
  case forRangeLoopStmt => exact rangeStmt_gives hρ hv h.1 h.2.1 h.2.2.1 h.2.2.2.1 h.2.2.2.2.1
  case forCountLoopStmt => exact countStmt_gives hρ hv h.1 h.2.1 h.2.2.2.1 h.2.2.2.2.1 h.2.2.2.2.2.1
  case throwStmt => exact throwStmt_gives hρ hv h.1 h.2.1
  case catchHandlerStmt => exact handler_gives hρ hv h.1 h.2.1 h.2.2.1 h.2.2.2.1
  case exceptionHandlerStmt => exact tryStmt_gives hρ hv h.1 h.2.1 h.2.2.1 h.2.2.2.1

/-! ## All levels -/

/-- **All levels.** Trees of the fragment that have the same shape convert to the same
term, at every depth that is not less than their levels. The induction is on the levels;
the terms of the level below are chosen once, so that one step serves all depths. -/
theorem SameShape.converts [Nonempty ι] {d : Nat} (h : SameShape s d v) :
    ∃ g r t, HasForm s v g ∧ (schema g).map Prod.fst = some r ∧ Grammatical r t ∧
      ∀ i e, d ≤ e → run (toDepth e (v i)) (s i) = .ok t := by
  classical
  induction d generalizing v with
  | zero => exact absurd h id
  | succ d ih =>
    obtain ⟨g, r, reqs, hform, hschema, hmet⟩ := h
    let ρ (w : ι → Value) : Term :=
      if hw : SameShape s d w then (ih hw).choose_spec.choose_spec.choose else .absent
    have hchosen : ∀ w, SameShape s d w → ∃ g r, HasForm s w g ∧
        (schema g).map Prod.fst = some r ∧ Grammatical r (ρ w) ∧
        ∀ i e, d ≤ e → run (toDepth e (w i)) (s i) = .ok (ρ w) := by
      intro w hw
      simp only [ρ, hw, dif_pos]
      exact ⟨_, _, (ih hw).choose_spec.choose_spec.choose_spec⟩
    have hρ : Fitting s (SameShape s d) ρ := by
      intro w r hc
      obtain ⟨hw, g, hg, hr⟩ := hc
      obtain ⟨g', r', hg', hr', hgram, -⟩ := hchosen w hw
      have i := Classical.arbitrary ι
      obtain rfl := Option.some.inj ((hg i).symm.trans (hg' i))
      obtain rfl := Option.some.inj (hr.symm.trans hr')
      exact hgram
    obtain ⟨t, ht, hrun⟩ := step_gives hρ hform hschema hmet
    refine ⟨g, r, t, hform, by rw [hschema, Option.map_some], ht, fun i e he => ?_⟩
    obtain ⟨e, rfl⟩ := Nat.exists_eq_add_of_lt he
    refine hrun i (toDepth (d + e)) fun w hw => ?_
    obtain ⟨-, -, -, -, -, hw⟩ := hchosen w hw
    exact hw i _ (Nat.le_add_right d e)

end Levels

variable {s : Store} {P : Value → Prop} {v : Value} {r : Role} {g : Form}

/-- A store is its own mirror. -/
theorem mirror_self (s : Store) : Mirror s s (fun _ _ => True) Eq where
  plain h _ := h.symm
  cell {a c v'} h hc := by
    refine ⟨a, c, h.symm, hc, ?_⟩
    cases c with
    | node n => exact .node ⟨rfl, fun _ h => by cases h⟩
    | list xs => exact .list (List.forall₂_refl xs)
    | tuple xs => exact .tuple (List.forall₂_refl xs)
    | set xs => exact .set (List.forall₂_refl xs)
    | dict es => exact .dict (List.forall₂_same.mpr fun e _ => ⟨rfl, rfl⟩)
  nodes _ := trivial
  field h _ hw := by
    subst h
    exact ⟨_, hw, rfl⟩
  missing h _ hw := by
    subst h
    exact hw

theorem Requirement.sees_all (q : Requirement) (s : Store) (v : Value) :
    q.Sees s (fun _ _ => True) v := by
  induction q generalizing v with
  | inside f q ih => exact ⟨trivial, fun w _ => ih w⟩
  | mayInside f q ih => exact ⟨trivial, fun w _ _ => ih w⟩
  | _ => simp [Requirement.Sees]

/-- A tree has the shape of itself. -/
theorem Core.sameShape {d : Nat} {w : Bool → Value} (h : Core s d (w false))
    (hw : w false = w true) : SameShape (fun _ : Bool => s) d w := by
  induction d generalizing w with
  | zero => exact h
  | succ d ih =>
    obtain ⟨g, r, reqs, hform, hschema, hmet⟩ := h
    refine ⟨g, r, reqs, (mirror_self s).hasForm (s := fun _ => s) hw hform, hschema, ?_⟩
    exact fun q hq => (hmet q hq).shared (s := fun _ => s) (mirror_self s) (fun z hz => ih hz) hw
      (q.sees_all s _)

/-- A value converts to a term for its place, at every depth from some depth on. -/
def ConvertsFrom (s : Store) (d : Nat) (v : Value) (t : Term) : Prop :=
  (∃ r, roleOf? s v = some r ∧ Grammatical r t) ∧ ∀ e, d ≤ e → run (toDepth e v) s = .ok t

/-- Every tree of the fragment converts, and to the same term at every depth that is not
less than its levels. -/
theorem Core.converts {d : Nat} (h : Core s d v) : ∃ t, ConvertsFrom s d v t := by
  obtain ⟨g, r, t, hform, hrole, ht, hrun⟩ := (Core.sameShape (w := fun _ => v) h rfl).converts
  refine ⟨t, ⟨r, ?_, ht⟩, hrun false⟩
  rw [roleOf?_eq (hform false), hrole]

/-! ## Nodes of blocks -/

variable {b : Value} {l : Address} {xs : List Value} {f : Field} {path : List Field}

theorem nodes_of_isBlock (h : IsBlock s P b) (hb : IsContainer s b l xs) : ∀ x ∈ xs, P x := by
  obtain ⟨l', ys, hc, hy⟩ := h
  have heq : (l, xs) = (l', ys) :=
    Option.some.inj ((isContainer_iff.mp hb).symm.trans (isContainer_iff.mp hc))
  obtain ⟨-, rfl⟩ := Prod.mk.inj heq
  exact fun x hx => (hy x hx).elim And.left And.left

theorem nodes_of_block (h : (Requirement.block f).Met s P v) (hp : Reaches s v [f] b)
    (hb : IsContainer s b l xs) : ∀ x ∈ xs, P x := by
  obtain ⟨c, hc, hblock⟩ := h
  obtain rfl := Except.ok.inj (hp.single.1.symm.trans hc)
  exact nodes_of_isBlock hblock hb

/-- Nothing does not count as true, so it is not reached. -/
theorem not_reaches_none (h : Reaches s v (f :: path) b) (hf : run (field v f) s = .ok .none) :
    False := by
  cases h with
  | there hw htrue _ =>
    obtain rfl := Except.ok.inj (hf.symm.trans hw)
    exact absurd (Except.ok.inj (htrue.symm.trans (show run (truthy .none) s = .ok false from rfl)))
      (by decide)

/-- Every node of a block that a node of the fragment reads as a body is of the
fragment. -/
theorem nodes_of_seat {reqs : List Requirement} (hg : (g, path) ∈ bodySeats)
    (hs : schema g = some (r, reqs)) (h : ∀ q ∈ reqs, q.Met s P v) (hp : Reaches s v path b)
    (hb : IsContainer s b l xs) : ∀ x ∈ xs, P x := by
  simp only [bodySeats, List.mem_cons, Prod.mk.injEq, List.not_mem_nil, or_false] at hg
  rcases hg with ⟨rfl, rfl⟩ | ⟨rfl, rfl⟩ | ⟨rfl, rfl⟩ | ⟨rfl, rfl⟩ | ⟨rfl, rfl⟩ | ⟨rfl, rfl⟩ |
    ⟨rfl, rfl⟩ | ⟨rfl, rfl⟩ | ⟨rfl, rfl⟩ | ⟨rfl, rfl⟩ | ⟨rfl, rfl⟩ | ⟨rfl, rfl⟩ | ⟨rfl, rfl⟩ |
    ⟨rfl, rfl⟩ | ⟨rfl, rfl⟩ | ⟨rfl, rfl⟩
  all_goals cases hs
  all_goals try
    refine nodes_of_block (h (.block _) ?_) hp hb
    simp
    done
  · -- The second branch of a conditional statement may be missing.
    rcases h (.mayBlock .elseBranch) (by simp) with hnone | hblock
    · exact (not_reaches_none hp hnone).elim
    · exact nodes_of_block hblock hp hb
  · -- So may the block that is always run.
    rcases h (.mayInside .finallyHandler (.block .body)) (by simp) with hnone | ⟨w, hw, c, hc, hblock⟩
    · exact (not_reaches_none hp hnone).elim
    · obtain ⟨w', hw', -, hb'⟩ := hp.double
      obtain rfl := Except.ok.inj (hw.symm.trans hw')
      obtain rfl := Except.ok.inj (hc.symm.trans hb')
      exact nodes_of_isBlock hblock hb

/-! ## Trees -/

/-- A loop that counts up to ten. -/
def countingLoop : Build Value := do
  let type ← Build.construct .int32 [] []
  let x ← Build.construct .variableUse [] [(.name, .text "x"), (.type, .ref type)]
  let ten ← Build.construct .literalInt32 [] [(.value, .int 10)]
  let signs ← Build.newList [.text "<"]
  let operands ← Build.newList [.ref ten]
  let test ← Build.construct .compareOp []
    [(.left, .ref x), (.ops, signs), (.comparators, operands)]
  let one ← Build.construct .literalInt32 [] [(.value, .int 1)]
  let sum ← Build.construct .binaryOp [] [(.opCode, .text "+"), (.lhs, .ref x), (.rhs, .ref one)]
  let next ← Build.construct .variableAssignment [] [(.name, .text "x"), (.value, .ref sum)]
  let body ← Build.construct .block [] []
  Build.append (.ref body) (.ref next)
  let loop ← Build.construct .whileStmt [] [(.condition, .ref test), (.body, .ref body)]
  return .ref loop

/-- The store with the loop in it. -/
def countingStore : Store :=
  (countingLoop Store.initial).2

/-- What the constructors left behind, found by running them once. -/
theorem countingStore_nodes :
    NodeWith countingStore (.ref 23) .variableUse [(.name, .text "x")] ∧
    NodeWith countingStore (.ref 27) .literalInt32 [(.value, .int 10)] ∧
    NodeWith countingStore (.ref 37) .literalInt32 [(.value, .int 1)] ∧
    (countingStore.formOf? (.ref 33) = some .compareOp ∧
      run (field (.ref 33) .left) countingStore = .ok (.ref 23) ∧
      run (field (.ref 33) .ops) countingStore = .ok (.ref 35) ∧
      (countingStore.cell? 35).bind sequence? = some [.text "<"] ∧
      run (field (.ref 33) .comparators) countingStore = .ok (.ref 36) ∧
      (countingStore.cell? 36).bind sequence? = some [.ref 27]) ∧
    NodeWith countingStore (.ref 41) .binaryOp [(.opCode, .text "+"), (.lhs, .ref 23),
      (.rhs, .ref 37)] ∧
    NodeWith countingStore (.ref 43) .variableAssignment [(.name, .text "x"), (.value, .ref 41)] ∧
    (countingStore.formOf? (.ref 46) = some .whileStmt ∧
      run (field (.ref 46) .condition) countingStore = .ok (.ref 33) ∧
      run (field (.ref 46) .body) countingStore = .ok (.ref 44) ∧
      IsContainer countingStore (.ref 44) 45 [.ref 43]) := by
  decide +kernel

/-- The loop is a tree of the fragment, with four levels. -/
theorem core_countingLoop : Core countingStore 4 (.ref 46) := by
  obtain ⟨⟨hx, hxname⟩, ⟨hten, htenvalue⟩, ⟨hone, honevalue⟩,
    ⟨htest, hleft, hops, hsigns, hcomparators, hoperands⟩, ⟨hsum, hcode, hlhs, hrhs⟩,
    ⟨hnext, hnextname, hnextvalue⟩, ⟨hloop, hcondition, hbody, hnodes⟩⟩ := countingStore_nodes
  have hcx : ∀ d, Child countingStore (Core countingStore (d + 1)) .expression (.ref 23) := by
    refine fun d => ⟨⟨_, _, _, hx, rfl, ?_⟩, roleOf?_eq hx⟩
    simp only [List.forall_mem_cons]
    exact ⟨⟨"x", hxname⟩, List.forall_mem_nil _⟩
  have hcten : Child countingStore (Core countingStore 2) .expression (.ref 27) := by
    refine ⟨⟨_, _, _, hten, rfl, ?_⟩, roleOf?_eq hten⟩
    simp only [List.forall_mem_cons]
    exact ⟨⟨.int 10, htenvalue, rfl⟩, List.forall_mem_nil _⟩
  have hcone : Child countingStore (Core countingStore 1) .expression (.ref 37) := by
    refine ⟨⟨_, _, _, hone, rfl, ?_⟩, roleOf?_eq hone⟩
    simp only [List.forall_mem_cons]
    exact ⟨⟨.int 1, honevalue, rfl⟩, List.forall_mem_nil _⟩
  have hctest : Child countingStore (Core countingStore 3) .expression (.ref 33) := by
    refine ⟨⟨_, _, _, htest, rfl, ?_⟩, roleOf?_eq htest⟩
    simp only [List.forall_mem_cons]
    refine ⟨⟨.ref 23, hleft, hcx 1⟩, ⟨.ref 35, [.text "<"], .ref 36, [.ref 27], hops,
      contains_of_sequence? hsigns, ?_, hcomparators, contains_of_sequence? hoperands, ?_, rfl⟩,
      List.forall_mem_nil _⟩
    · exact fun y hy => ⟨"<", List.mem_singleton.mp hy⟩
    · exact List.forall_mem_singleton.mpr hcten
  have hcsum : Child countingStore (Core countingStore 2) .expression (.ref 41) := by
    refine ⟨⟨_, _, _, hsum, rfl, ?_⟩, roleOf?_eq hsum⟩
    simp only [List.forall_mem_cons]
    exact ⟨⟨"+", hcode⟩, ⟨.ref 23, hlhs, hcx 0⟩, ⟨.ref 37, hrhs, hcone⟩, List.forall_mem_nil _⟩
  have hcnext : Child countingStore (Core countingStore 3) .statement (.ref 43) := by
    refine ⟨⟨_, _, _, hnext, rfl, ?_⟩, roleOf?_eq hnext⟩
    simp only [List.forall_mem_cons]
    exact ⟨⟨"x", hnextname⟩, ⟨.ref 41, hnextvalue, hcsum⟩, List.forall_mem_nil _⟩
  refine ⟨_, _, _, hloop, rfl, ?_⟩
  simp only [List.forall_mem_cons]
  refine ⟨⟨.ref 33, hcondition, hctest⟩, ⟨.ref 44, hbody, 45, [.ref 43], hnodes, ?_⟩,
    List.forall_mem_nil _⟩
  exact List.forall_mem_singleton.mpr (.inl hcnext)

end ProgramTree.Target
