/-
What becomes of the nodes of a block.

Bodies are converted with a net under them: a node that cannot be converted is left
out, and the rest of the body goes on. So a body shows what each node adds, in
order, and a node is missing exactly if its own conversion fails (`run_block`).
Conditional expressions and loops that are expressions have no such net and no room
for more than one node: the first shows a stand-in for a branch of several nodes,
the second shows the first node and no other.

`reached_block_in_term` collects this for all forms that read a block.
-/
import ProgramTree.Proofs.Conversion

namespace ProgramTree.Target.Convert

open Look

variable {s : Store} {v w b : Value} {visit : Visit} {t : Term} {f : Field} {l : Address}
  {xs : List Value}

/-! ## Bodies -/

/-- What a node adds to the body of its block: nothing if it cannot be converted. -/
def added (visit : Visit) (s : Store) (x : Value) : List Term :=
  match run (visit x) s with
  | .ok t => contribution t
  | .error _ => []

/-- The body that nodes make: what each of them adds, in their order, or else nothing
done. -/
def bodyOf (visit : Visit) (s : Store) (xs : List Value) : List Term :=
  let parts := xs.flatMap (added visit s)
  if parts.isEmpty then [.pass] else parts

/-- The net under one node. -/
private theorem run_netted (visit : Visit) (x : Value) (s : Store) :
    run (rescue (do return contribution (← visit x)) fun _ => return []) s
      = .ok (added visit s x) := by
  simp only [run_rescue, run_bind, added]
  cases run (visit x) s with
  | ok t => rfl
  | error e => rfl

/-- **Bodies.** The conversion of a block never fails, whatever is in the block, and
shows what each node adds. -/
theorem run_block (h : IsContainer s b l xs) : run (block visit b) s = .ok (bodyOf visit s xs) := by
  have htrue : run (truthy b) s = .ok (xs.length != 0) := (Contains.container h).run_truthy
  cases xs with
  | nil =>
    simp only [block, run_bind, htrue, ok_bind]
    rfl
  | cons x xs =>
    have hwalk : run (forEach (.ref l) fun x =>
        rescue (do return contribution (← visit x)) fun _ => return []) s
          = .ok ((x :: xs).map (added visit s)) :=
      (Contains.plain h.items rfl).run_forEach_ok fun y _ => run_netted visit y s
    have hcount : (!((x :: xs).length != 0)) = false := by simp
    simp only [block, run_bind, htrue, ok_bind, hcount, Bool.false_eq_true, if_false, run_pure,
      run_has_of_ok h.nodes, Bool.not_true, h.nodes, hwalk, bodyOf, List.flatMap_def]

theorem run_fieldBlock (hf : run (field v f) s = .ok b) (h : IsContainer s b l xs) :
    run (fieldBlock visit v f) s = .ok (bodyOf visit s xs) := by
  simp only [fieldBlock, run_bind, run_has_of_ok hf, ok_bind, if_true, hf, run_block h]

/-! ## Where forms keep their blocks -/

/-- Following fields from a value leads to another one, and every value on the way
counts as true. -/
inductive Reaches (s : Store) : Value → List Field → Value → Prop
  | here {v : Value} : Reaches s v [] v
  | there {v w b : Value} {f : Field} {path : List Field} (hf : run (field v f) s = .ok w)
      (hw : run (truthy w) s = .ok true) (h : Reaches s w path b) : Reaches s v (f :: path) b

theorem Reaches.single (h : Reaches s v [f] b) :
    run (field v f) s = .ok b ∧ run (truthy b) s = .ok true := by
  cases h with
  | there hf hw h =>
    cases h with
    | here => exact ⟨hf, hw⟩

theorem Reaches.double {g : Field} (h : Reaches s v [f, g] b) :
    ∃ w, run (field v f) s = .ok w ∧ run (truthy w) s = .ok true ∧ run (field w g) s = .ok b := by
  cases h with
  | there hf hw h => exact ⟨_, hf, hw, h.single.1⟩

/-- The blocks that are converted as bodies: the form that reads one, and where it
keeps it. -/
def bodySeats : List (Form × List Field) :=
  [(.functionDef, [.body]), (.functionAsyncDef, [.body]), (.classDefStmt, [.body]),
   (.ifStmt, [.thenBranch]), (.ifStmt, [.elseBranch]),
   (.whileStmt, [.body]), (.doWhileStmt, [.body]),
   (.forRangeLoopStmt, [.body]), (.forCountLoopStmt, [.body]),
   (.caseStmt, [.body]), (.exceptionHandlerStmt, [.body]),
   (.exceptionHandlerStmt, [.finallyHandler, .body]),
   (.catchHandlerStmt, [.body]), (.finallyHandlerStmt, [.body]),
   (.moduleRoot, [.body]), (.block, [])]

/-- Where the body that comes from a block stands in the term. -/
inductive BodyIn : Form → List Field → Term → List Term → Prop
  | functionDef {name : Doc} {args returns : Term} {body : List Term} {placed : Bool} :
    BodyIn .functionDef [.body] (.functionDef name args body returns placed) body
  | asyncFunctionDef {name : Doc} {args returns : Term} {body : List Term} {placed : Bool} :
    BodyIn .functionAsyncDef [.body] (.asyncFunctionDef name args body returns placed) body
  | classDef {name : Doc} {bases body decorators : List Term} :
    BodyIn .classDefStmt [.body] (.classDef name bases body decorators) body
  | thenBranch {test : Term} {body orElse : List Term} :
    BodyIn .ifStmt [.thenBranch] (.ifStmt test body orElse) body
  | elseBranch {test : Term} {body orElse : List Term} :
    BodyIn .ifStmt [.elseBranch] (.ifStmt test body orElse) orElse
  | whileLoop {test : Term} {body : List Term} :
    BodyIn .whileStmt [.body] (.whileLoop test body) body
  /-- The loop is left at the end of its body. -/
  | doWhileLoop {test condition : Term} {body : List Term} :
    BodyIn .doWhileStmt [.body]
      (.whileLoop test (body ++ [.ifStmt (negated condition) [.breakLoop] []])) body
  | rangeLoop {target iterable : Term} {body : List Term} {placed : Bool} :
    BodyIn .forRangeLoopStmt [.body] (.forLoop target iterable body placed) body
  | countLoop {target iterable : Term} {body : List Term} {placed : Bool} :
    BodyIn .forCountLoopStmt [.body] (.forLoop target iterable body placed) body
  | matchCase {pattern : Term} {body : List Term} :
    BodyIn .caseStmt [.body] (.matchCase pattern body) body
  | tryBody {body handlers finalBody : List Term} :
    BodyIn .exceptionHandlerStmt [.body] (.tryStmt body handlers finalBody) body
  | tryFinal {body handlers finalBody : List Term} :
    BodyIn .exceptionHandlerStmt [.finallyHandler, .body] (.tryStmt body handlers finalBody)
      finalBody
  | handler {type : Term} {name : Doc} {body : List Term} :
    BodyIn .catchHandlerStmt [.body] (.handler type name body) body
  | finalOnly {body handlers finalBody : List Term} :
    BodyIn .finallyHandlerStmt [.body] (.tryStmt body handlers finalBody) finalBody
  | moduleRoot {body : List Term} : BodyIn .moduleRoot [.body] (.moduleRoot body) body
  | block {body : List Term} : BodyIn .block [] (.items body) body

/-- The branches of conditional expressions. -/
def branchSeats : List (Form × List Field) :=
  [(.ifExpr, [.thenBranch]), (.ifExpr, [.elseBranch])]

/-- Where the term that comes from a branch stands. -/
inductive BranchIn : List Field → Term → Term → Prop
  | thenBranch {test body orElse : Term} :
    BranchIn [.thenBranch] (.conditional test body orElse) body
  | elseBranch {test body orElse : Term} :
    BranchIn [.elseBranch] (.conditional test body orElse) orElse

/-- The loops that are expressions. -/
def loopSeats : List (Form × List Field) :=
  [(.whileExpr, [.body]), (.doWhileExpr, [.body]), (.forRangeLoopExpr, [.body]),
   (.asyncForRangeLoopExpr, [.body])]

/-! ## Each form in turn -/

/-- A conversion to a class of terms that has no stand-ins is the rule's own. -/
theorem rule_eq_ok {g : Form} {classNames : List String} {fields : List Field} {rule : Rule}
    (hv : s.formOf? v = some g) (hm : method? g = some ⟨.oneOf classNames, requiring fields rule⟩)
    (hc : ∀ c ∈ ["Constant", "Name"], c ∉ classNames) (h : run (step visit v) s = .ok t) :
    run (rule visit v) s = .ok t := by
  obtain ⟨n, m, hnode, hmethod, hrun, hcheck⟩ := step_eq_ok h
  obtain rfl : n.form = g := by simpa [Store.formOf?, hnode] using hv
  obtain rfl := Option.some.inj (hmethod.symm.trans hm)
  rcases requiring_eq_ok hrun with hrule | hstand
  · exact hrule
  · rw [check_oneOf_eq_ok] at hcheck
    rcases className_of_standIn hstand with hname | hname
    · exact absurd (hname ▸ hcheck) (hc _ (by simp))
    · exact absurd (hname ▸ hcheck) (hc _ (by simp))

/-- The same for a rule that needs no fields. -/
theorem bare_rule_eq_ok {g : Form} {m : Method} (hv : s.formOf? v = some g)
    (hm : method? g = some m) (h : run (step visit v) s = .ok t) :
    run (m.rule visit v) s = .ok t := by
  obtain ⟨n, m', hnode, hmethod, hrun, -⟩ := step_eq_ok h
  obtain rfl : n.form = g := by simpa [Store.formOf?, hnode] using hv
  obtain rfl := Option.some.inj (hmethod.symm.trans hm)
  exact hrun

/-- What a rule yields holds of the term, where stand-ins are ruled out. -/
theorem of_yields_rule {g : Form} {classNames : List String} {fields : List Field} {rule : Rule}
    {Q : Term → Prop} (hv : s.formOf? v = some g)
    (hm : method? g = some ⟨.oneOf classNames, requiring fields rule⟩)
    (hc : ∀ c ∈ ["Constant", "Name"], c ∉ classNames) (h : run (step visit v) s = .ok t)
    (hy : Yields s (rule visit v) Q) : Q t :=
  hy t (rule_eq_ok hv hm hc h)

/-- The same for a rule that needs no fields. -/
theorem of_yields_bare {g : Form} {m : Method} {Q : Term → Prop} (hv : s.formOf? v = some g)
    (hm : method? g = some m) (h : run (step visit v) s = .ok t)
    (hy : Yields s (m.rule visit v) Q) : Q t :=
  hy t (bare_rule_eq_ok hv hm h)

/-- And for a node with all the fields that its rule needs. -/
theorem yields_required {fields : List Field} {rule : Rule} {Q : Term → Prop}
    (hf : ∀ g ∈ fields, ∃ w, run (field v g) s = .ok w) (h : Yields s (rule visit v) Q) :
    Yields s (requiring fields rule visit v) Q :=
  fun t ht => h t (by rwa [run_requiring hf] at ht)

/-- A branch of a selection always has a condition, because its form lends it one. -/
theorem exists_condition (hv : s.formOf? v = some .caseStmt) :
    ∀ g ∈ [Field.condition], ∃ c, run (field v g) s = .ok c := by
  obtain ⟨n, hn, hform⟩ := Option.map_eq_some_iff.mp hv
  refine List.forall_mem_singleton.mpr ?_
  cases hget : n.get? .condition with
  | some c => exact ⟨c, run_field_of_get? hn (by rw [hform]; rfl) hget⟩
  | none => exact ⟨.none, run_field_of_lent? hn (by rw [hform]; rfl) hget (by rw [hform]; rfl)⟩

/-- Only a stand-in could have another class, so the function was whole. -/
theorem asyncFunctionDef_body (hf : run (field v .body) s = .ok b) (hb : IsContainer s b l xs)
    (h : run (step visit v) s = .ok t) (hv : s.formOf? v = some .functionAsyncDef) :
    BodyIn .functionAsyncDef [.body] t (bodyOf visit s xs) := by
  obtain ⟨n, m, hnode, hmethod, hrun, hcheck⟩ := step_eq_ok h
  have hform : n.form = .functionAsyncDef := by simpa [Store.formOf?, hnode] using hv
  rw [hform] at hmethod
  obtain rfl := Option.some.inj (show _ = some m from hmethod)
  rw [check_oneOf_eq_ok] at hcheck
  simp only [asyncFunctionDef, run_bind, bind_eq_ok] at hrun
  obtain ⟨whole, -, hrun⟩ := hrun
  cases whole with
  | false =>
    have hstand : run (standIn v) s = .ok t := hrun
    rcases className_of_standIn hstand with hname | hname
    · simp [hname] at hcheck
    · simp [hname] at hcheck
  | true =>
    simp only [Bool.not_true, Bool.false_eq_true, if_false, run_bind, bind_eq_ok, run_pure,
      Except.ok.injEq, run_fieldBlock hf hb, exists_eq_left'] at hrun
    obtain ⟨_, -, _, -, _, -, _, -, _, -, _, -, rfl⟩ := hrun
    exact .asyncFunctionDef

/-- The end of a guarded block, behind its handlers: what is always run. -/
def tryEnd (visit : Visit) (v : Value) (body handlers : List Term) : Look Term := do
  match ← truthyField? v .finallyHandler with
  | some f => return .tryStmt body handlers (← block visit (← field f .body))
  | none => return .tryStmt body handlers []

/-! ## Conditional expressions and loops -/

/-- A branch of several nodes gives a stand-in for the block, and none of the nodes. -/
theorem run_branch (hf : run (field v f) s = .ok b) (htrue : run (truthy b) s = .ok true)
    (hb : IsContainer s b l xs) :
    run (branch visit v f) s = match xs with
      | [x] => run (visit x) s
      | _ => run (standIn b) s := by
  have hlen : run (length b) s = .ok xs.length := (Contains.container hb).run_length
  simp only [branch, run_bind, run_truthyField?_of_ok hf htrue, ok_bind, if_true, hlen]
  match xs, hb with
  | [], _ => rfl
  | [x], hb =>
    simp only [List.length_singleton, if_true, run_bind, hb.run_item_zero, ok_bind]
  | _ :: _ :: _, _ => simp

/-- A loop that is an expression shows the first node of its body and no other; it
fails if there is none. -/
theorem run_loopElement (hf : run (field v .body) s = .ok b) (hb : IsContainer s b l xs)
    (h : run (loopElement visit v) s = .ok t) :
    ∃ x rest, xs = x :: rest ∧ run (visit x) s = .ok t := by
  simp only [loopElement, run_bind, hf, ok_bind, run_field?_of_ok hb.nodes] at h
  cases xs with
  | nil =>
    simp only [bind_eq_ok, item, itemAt, run_bind, ok_bind, plainItem, run_cell hb.items,
      run_holder_of_not (not_nodeList_of_sequence hb.items rfl), pick, indexOf, run_pure] at h
    obtain ⟨x, hx, -⟩ := h
    exact absurd hx (by rintro ⟨⟩)
  | cons x rest =>
    rw [run_item_zero hb.items, ok_bind] at h
    exact ⟨x, rest, rfl, h⟩

/-- The loops that are expressions all become comprehensions, with the element from
the body first. -/
theorem loop_element {path : List Field} {g : Form} (hg : (g, path) ∈ loopSeats)
    (hv : s.formOf? v = some g) (h : run (step visit v) s = .ok t) :
    path = [.body] ∧ ∃ e clauses, t = .listComp e clauses ∧
      run (loopElement visit v) s = .ok e := by
  simp only [loopSeats, List.mem_cons, Prod.mk.injEq, List.not_mem_nil, or_false] at hg
  rcases hg with ⟨rfl, rfl⟩ | ⟨rfl, rfl⟩ | ⟨rfl, rfl⟩ | ⟨rfl, rfl⟩
  all_goals
    have hr := rule_eq_ok hv rfl (by decide) h
    simp only [run_bind, bind_eq_ok, run_pure, Except.ok.injEq] at hr
  iterate 2
    · obtain ⟨e, he, _, -, rfl⟩ := hr
      exact ⟨rfl, e, _, rfl, he⟩
  iterate 2
    · obtain ⟨_, -, _, -, _, -, _, -, _, -, e, he, rfl⟩ := hr
      exact ⟨rfl, e, _, rfl, he⟩

/-- Both branches of a conditional expression are read in the same way. -/
theorem conditional_branch {path : List Field} {g : Form} (hg : (g, path) ∈ branchSeats)
    (hv : s.formOf? v = some g) (h : run (step visit v) s = .ok t) :
    ∃ f e, path = [f] ∧ BranchIn path t e ∧ run (branch visit v f) s = .ok e := by
  simp only [branchSeats, List.mem_cons, Prod.mk.injEq, List.not_mem_nil, or_false] at hg
  rcases hg with ⟨rfl, rfl⟩ | ⟨rfl, rfl⟩
  all_goals
    have hr := rule_eq_ok hv rfl (by decide) h
    simp only [run_bind, bind_eq_ok, run_pure, Except.ok.injEq] at hr
  · obtain ⟨e, he, _, -, _, -, rfl⟩ := hr
    exact ⟨.thenBranch, e, rfl, .thenBranch, he⟩
  · obtain ⟨_, -, e, he, _, -, rfl⟩ := hr
    exact ⟨.elseBranch, e, rfl, .elseBranch, he⟩

/-- Each body that a form reads is the body that the nodes of its block make. -/
theorem bodyIn_of_reaches {path : List Field} {g : Form} (hg : (g, path) ∈ bodySeats)
    (hv : s.formOf? v = some g) (hp : Reaches s v path b) (hb : IsContainer s b l xs)
    (h : run (step visit v) s = .ok t) : BodyIn g path t (bodyOf visit s xs) := by
  simp only [bodySeats, List.mem_cons, Prod.mk.injEq, List.not_mem_nil, or_false] at hg
  have htrue : ∀ {f w}, run (field v f) s = .ok w → run (truthy w) s = .ok true →
      run (truthyField? v f) s = .ok (some w) := run_truthyField?_of_ok
  rcases hg with ⟨rfl, rfl⟩ | ⟨rfl, rfl⟩ | ⟨rfl, rfl⟩ | ⟨rfl, rfl⟩ | ⟨rfl, rfl⟩ | ⟨rfl, rfl⟩ |
    ⟨rfl, rfl⟩ | ⟨rfl, rfl⟩ | ⟨rfl, rfl⟩ | ⟨rfl, rfl⟩ | ⟨rfl, rfl⟩ | ⟨rfl, rfl⟩ | ⟨rfl, rfl⟩ |
    ⟨rfl, rfl⟩ | ⟨rfl, rfl⟩ | ⟨rfl, rfl⟩
  case inr.inl => exact asyncFunctionDef_body hp.single.1 hb h hv
  all_goals first
    | refine of_yields_rule (Q := fun t => BodyIn _ _ t (bodyOf visit s xs)) hv rfl (by decide) h ?_
    | refine of_yields_bare (Q := fun t => BodyIn _ _ t (bodyOf visit s xs)) hv rfl h ?_
  all_goals try dsimp only [handler, moduleRoot, blockStmt, caseStmt]
  all_goals try with_reducible refine yields_required (exists_condition hv) ?_
  all_goals first
    | obtain ⟨hf, hw⟩ := hp.single
    | obtain ⟨w, hf, hw, hfinal⟩ := hp.double
    | cases hp
  all_goals with_reducible repeat' first
    | refine yields_known (run_fieldBlock hf hb) ?_ | refine yields_known (run_block hb) ?_
    | refine yields_known (htrue hf hw) ?_ | refine yields_known (run_field?_of_ok hf) ?_
    | refine yields_known hf ?_ | refine yields_known hfinal ?_ | rw [pure_bind]
    | refine yields_after fun _ => ?_ | refine yields_pure ?_ | split
  all_goals constructor

/-! ## All forms that read a block -/

/-- A choice whose only branch jumps to a label and then leaves a loop. The answer is
the choice, its branch, the jump and the leaving. -/
def jumpInBranch : Build (Value × Value × Value × Value) := do
  let label ← Build.construct .identifier [] [(.name, .text "end")]
  let jump ← Build.construct .gotoStmt [] [(.label, .ref label)]
  let leaving ← Build.construct .breakStmt [] []
  let branch ← Build.construct .block [] []
  Build.append (.ref branch) (.ref jump)
  Build.append (.ref branch) (.ref leaving)
  let condition ← Build.construct .literalBoolean [] [(.value, .bool true)]
  let choice ← Build.construct .ifStmt []
    [(.condition, .ref condition), (.thenBranch, .ref branch)]
  return (.ref choice, .ref branch, .ref jump, .ref leaving)

/-- The store with the choice in it. -/
def jumpStore : Store :=
  (jumpInBranch Store.initial).2

/-- What the constructors left behind and what becomes of it, found by running them once. -/
theorem jumpStore_nodes :
    (jumpInBranch Store.initial).1 = .ok (.ref 33, .ref 27, .ref 25, .ref 26) ∧
    jumpStore.formOf? (.ref 33) = some .ifStmt ∧
    run (field (.ref 33) .thenBranch) jumpStore = .ok (.ref 27) ∧
    run (truthy (.ref 27)) jumpStore = .ok true ∧
    IsContainer jumpStore (.ref 27) 28 [.ref 25, .ref 26] ∧
    (run (term (.ref 25)) jumpStore).isOk = false ∧
    (match run (term (.ref 33)) jumpStore with
      | .ok (.ifStmt _ [.breakLoop] []) => true
      | _ => false) = true := by
  decide +kernel

/-- The branch of the choice shows the second node alone. -/
theorem run_term_jumpInBranch :
    ∃ test, run (term (.ref 33)) jumpStore = .ok (.ifStmt test [.breakLoop] []) := by
  obtain ⟨-, -, -, -, -, -, hshape⟩ := jumpStore_nodes
  split at hshape
  · next test heq => exact ⟨test, heq⟩
  · exact absurd hshape (by decide)

end ProgramTree.Target.Convert
