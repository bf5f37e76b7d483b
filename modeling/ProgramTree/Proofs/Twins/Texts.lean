/-
Programs of the same shape have the same text.

Two trees of the core fragment in two stores, of which one stands for the other except for what is
incidental, convert to one and the same term and give the same text, with any margin.

The conversion reads names without asking whose they are: of the targets of an assignment, and of
parameters without types. So these have to be variables and arguments (`Proper`). All other names
that it reads belong to nodes that have names, because constructors take nothing else.

Whether a list of pairs of cells is a likeness can be decided, so that trees can be compared by
evaluation.
-/
import ProgramTree.Proofs.Core.Soundness
import ProgramTree.Proofs.Twins.Likeness

namespace ProgramTree

/-! ## Likenesses that are given by lists -/

section Lists

variable {R : Address → Address → Prop} {hides : Form → Field → Bool} {P : Value → Value → Prop}

theorem Value.pair_ref {a b : Address} : Value.Pair R (.ref a) (.ref b) ↔ R a b := by
  constructor
  · rintro (h | h)
    · exact absurd rfl (h a)
    · exact h
  · exact .cell

instance [DecidableRel R] (v w : Value) : Decidable (Value.Pair R v w) :=
  match v, w with
  | .ref _, .ref _ => decidable_of_iff _ Value.pair_ref.symm
  | .ref _, .none | .ref _, .bool _ | .ref _, .int _ | .ref _, .float _ | .ref _, .text _
  | .ref _, .member _ => .isFalse nofun
  | .none, w | .bool _, w | .int _, w | .float _, w | .text _, w | .member _, w =>
    decidable_of_iff (_ = w) ⟨fun h => h ▸ .plain nofun, fun h => (Likeness.pair_eq h nofun).symm⟩

theorem Node.get?_eq_none (n : Node) {f : Field} (h : f ∉ n.fields.map Prod.fst) :
    n.get? f = none := by
  simp only [Node.get?, List.lookup_eq_none_iff, bne_iff_ne]
  rintro p hp rfl
  exact h (List.mem_map_of_mem hp)

/-- Only the fields that one of two nodes has are to be compared. -/
theorem Node.alike_iff {n m : Node} : n.Alike hides P m ↔
    m.form = n.form ∧ ∀ f ∈ (n.fields ++ m.fields).map Prod.fst, hides n.form f = false →
      Option.Rel P (n.get? f) (m.get? f) := by
  constructor
  · exact fun h => ⟨h.form, fun f _ => h.fields f⟩
  · refine fun h => ⟨h.1, fun f hf => ?_⟩
    by_cases hmem : f ∈ (n.fields ++ m.fields).map Prod.fst
    · exact h.2 f hmem hf
    · rw [List.map_append, List.mem_append, not_or] at hmem
      rw [n.get?_eq_none hmem.1, m.get?_eq_none hmem.2]
      exact .none

variable [DecidableRel P]

instance (o o' : Option Value) : Decidable (Option.Rel P o o') :=
  match o, o' with
  | some v, some w => decidable_of_iff (P v w) ⟨.some, by rintro ⟨h⟩; exact h⟩
  | none, none => .isTrue .none
  | some _, none | none, some _ => .isFalse nofun

instance (n m : Node) : Decidable (n.Alike hides P m) :=
  decidable_of_iff _ Node.alike_iff.symm

instance (c d : Cell) : Decidable (c.Alike hides P d) :=
  match c, d with
  | .node n, .node m =>
    decidable_of_iff (n.Alike hides P m) ⟨.node, fun h => by cases h with | node h => exact h⟩
  | .list xs, .list ys =>
    decidable_of_iff (List.Forall₂ P xs ys) ⟨.list, fun h => by cases h with | list h => exact h⟩
  | .tuple xs, .tuple ys =>
    decidable_of_iff (List.Forall₂ P xs ys) ⟨.tuple, fun h => by cases h with | tuple h => exact h⟩
  | .set xs, .set ys =>
    decidable_of_iff (List.Forall₂ P xs ys) ⟨.set, fun h => by cases h with | set h => exact h⟩
  | .dict es, .dict fs =>
    decidable_of_iff (List.Forall₂ (fun e f => P e.1 f.1 ∧ P e.2 f.2) es fs)
      ⟨.dict, fun h => by cases h with | dict h => exact h⟩
  | .node _, .list _ | .node _, .tuple _ | .node _, .set _ | .node _, .dict _
  | .list _, .node _ | .list _, .tuple _ | .list _, .set _ | .list _, .dict _
  | .tuple _, .node _ | .tuple _, .list _ | .tuple _, .set _ | .tuple _, .dict _
  | .set _, .node _ | .set _, .list _ | .set _, .tuple _ | .set _, .dict _
  | .dict _, .node _ | .dict _, .list _ | .dict _, .tuple _ | .dict _, .set _ => .isFalse nofun

end Lists

/-- The pairs of a list are a likeness if all cells that they pair are alike. -/
theorem likeness_of_pairs {s s' : Store} {pairs : List (Address × Address)}
    (hcells : ∀ p ∈ pairs, ((s.cell? p.1).bind fun c => (s'.cell? p.2).map fun d =>
      decide (c.Alike Form.incidental (Value.Pair fun a b => (a, b) ∈ pairs) d)) = some true)
    (hlent : ∀ a ∈ [Shared.identifierType, Shared.callFormType, Shared.formParams],
      (a, a) ∈ pairs) :
    Likeness s s' fun a b => (a, b) ∈ pairs where
  cells {a b} hab := by
    obtain ⟨c, hc, hd⟩ := Option.bind_eq_some_iff.mp (hcells (a, b) hab)
    obtain ⟨d, hd, halike⟩ := Option.map_eq_some_iff.mp hd
    exact ⟨c, d, hc, hd, of_decide_eq_true halike⟩
  lent h := hlent _ (Form.lent?_ref h)

end ProgramTree

open ProgramTree.Look ProgramTree.Target.Convert

namespace ProgramTree.Target

/-! ## Programs -/

/-- What a node takes names from is what should have names. -/
structure Proper (s : Store) (v : Value) : Prop where
  /-- The targets of an assignment are variables. -/
  targets {w x : Value} {xs : List Value} : s.formOf? v = some .assignmentExpr →
    run (field v .targets) s = .ok w → Contains s w xs → x ∈ xs →
    s.formOf? x = some .identifier ∨ s.formOf? x = some .variableUse
  /-- The parameters of a function without a name are arguments. -/
  params {w x : Value} {xs : List Value} : s.formOf? v = some .lambdaExpr →
    run (field v .params) s = .ok w → Contains s w xs → x ∈ xs → s.formOf? x = some .argument
  /-- So are those of an asynchronous function. -/
  arguments {p a w x : Value} {xs : List Value} : s.formOf? v = some .functionAsyncDef →
    run (field v .prototype) s = .ok p → run (field p .args) s = .ok a →
    run (field a .nodes) s = .ok w → Contains s w xs → x ∈ xs → s.formOf? x = some .argument

/-- A tree of the core fragment, with at most so many levels, in which names are taken from
variables and arguments. -/
def Program (s : Store) : Nat → Value → Prop
  | 0, _ => False
  | depth + 1, v => (∃ g r reqs, s.formOf? v = some g ∧ schema g = some (r, reqs) ∧
      ∀ q ∈ reqs, q.Met s (Program s depth) v) ∧ Proper s v

section Programs

variable {s s' : Store} {R : Address → Address → Prop} {P : Value → Prop} {v w : Value} {f : Field}
  {g : Form} {r : Role} {d : Nat}

theorem Program.core (h : Program s d v) : Core s d v := by
  induction d generalizing v with
  | zero => exact h
  | succ d ih =>
    obtain ⟨⟨g, r, reqs, hform, hschema, hmet⟩, -⟩ := h
    exact ⟨g, r, reqs, hform, hschema, fun q hq => (hmet q hq).mono fun _ => ih⟩

/-- Whether a requirement is about plain fields only. -/
def Requirement.isPlain : Requirement → Bool
  | .form _ | .comparisons | .mayCall => true
  | .named _ | .someNamed _ | .declared _ => false
  | .inside f q | .mayInside f q => f.isPlain && q.isPlain
  | .missing f | .text f | .boolean f | .integer f | .scalar f | .label f | .scalarPair f
  | .unarySign f | .child f _ | .mayChild f _ | .children f _ | .mayChildren f _ | .entries f
  | .block f | .mayBlock f | .branch f | .mayBranch f | .mayItems f _ => f.isPlain

theorem Requirement.sees_of_isPlain {q : Requirement} (h : q.isPlain = true) (v : Value) :
    q.Sees s (Essential s) v := by
  induction q generalizing v with
  | form => trivial
  | comparisons => exact ⟨.plain rfl, .plain rfl⟩
  | mayCall => exact .plain rfl
  | named | someNamed | declared => cases h
  | inside f q ih =>
    obtain ⟨hf, hq⟩ := Bool.and_eq_true_iff.mp h
    exact ⟨.plain hf, fun w _ => ih hq w⟩
  | mayInside f q ih =>
    obtain ⟨hf, hq⟩ := Bool.and_eq_true_iff.mp h
    exact ⟨.plain hf, fun w _ _ => ih hq w⟩
  | _ => exact .plain h

/-- Whether what is asked of a node is about plain fields and its own name. -/
def Requirement.isOwn (g : Form) : Requirement → Bool
  | .text .name => g.isNamed
  | q => q.isPlain

theorem Requirement.sees_of_isOwn {q : Requirement} (hv : s.formOf? v = some g)
    (h : q.isOwn g = true) : q.Sees s (Essential s) v := by
  unfold Requirement.isOwn at h
  split at h
  · exact .name hv h
  · exact sees_of_isPlain h v

/-- The thing in a field is of a form that has names, if the constructor expects one. -/
theorem essential_name {base : Form} (hs : Built s) (hv : s.formOf? v = some g)
    (hkept : (f, .node base) ∈ g.kept) (hc : g.computed? f = none)
    (hbase : ∀ k : Form, k.isA base = true → k.isNamed = true)
    (hw : run (field v f) s = .ok w) : ∃ k, s.formOf? w = some k ∧ k.isNamed = true := by
  obtain ⟨n, hn, rfl⟩ := Option.map_eq_some_iff.mp hv
  obtain ⟨k, hk, hisA⟩ := Store.isForm_iff.mp (hs.meets_of_field hn hkept hc hw)
  exact ⟨k, hk, hbase k hisA⟩

theorem isNamed_of_isA (k : Form) :
    (k.isA .functionPrototype = true → k.isNamed = true) ∧
      (k.isA .inlineVariableDeclaration = true → k.isNamed = true) := by
  cases k <;> decide

theorem contains_unique {xs ys : List Value} (h : Contains s w xs) (h' : Contains s w ys) :
    xs = ys := by
  have hxs : run (forEach w pure) s = .ok (xs.map id) := h.run_forEach_ok fun _ _ => rfl
  have hys : run (forEach w pure) s = .ok (ys.map id) := h'.run_forEach_ok fun _ _ => rfl
  simpa using hxs.symm.trans hys

/-- All that the fragment asks of a node of a program is about what is essential. -/
theorem sees_of_schema {reqs : List Requirement} (hs : Built s) (hv : s.formOf? v = some g)
    (hschema : schema g = some (r, reqs)) (hmet : ∀ q ∈ reqs, q.Met s P v)
    (hproper : Proper s v) : ∀ q ∈ reqs, q.Sees s (Essential s) v := by
  have hrest : ∀ {qs : List Requirement}, qs.all (·.isOwn g) = true →
      ∀ q ∈ qs, q.Sees s (Essential s) v := fun hqs q hq =>
    Requirement.sees_of_isOwn hv (List.all_eq_true.mp hqs q hq)
  have hinside : ∀ {f}, f.isPlain = true →
      (∀ w, run (field v f) s = .ok w → ∃ k, s.formOf? w = some k ∧ k.isNamed = true) →
      (Requirement.inside f (.text .name)).Sees s (Essential s) v := by
    refine fun hf h => ⟨.plain hf, fun w hw => ?_⟩
    obtain ⟨k, hk, hnamed⟩ := h w hw
    exact .name hk hnamed
  by_cases hown : reqs.all (·.isOwn g) = true
  · exact hrest hown
  cases g with
  | lambdaExpr =>
    cases hschema
    refine List.forall_mem_cons.mpr ⟨⟨.plain rfl, fun w xs hw hxs x hx => ?_⟩, hrest rfl⟩
    exact .name (hproper.params hv hw hxs hx) rfl
  | assignmentExpr =>
    cases hschema
    refine List.forall_mem_cons.mpr ⟨⟨.plain rfl, fun w xs hw hxs x hx => ?_⟩, hrest rfl⟩
    exact (hproper.targets hv hw hxs hx).elim (fun hx => .name hx rfl) fun hx => .name hx rfl
  | enumDeclStmt =>
    cases hschema
    obtain ⟨u, ys, hu, hys, hdecl⟩ := hmet (.declared .attributes) (by simp)
    simp only [List.forall_mem_cons]
    refine ⟨.name hv rfl, ⟨.plain rfl, fun w xs hw hxs x hx => ?_⟩, List.forall_mem_nil _⟩
    cases hu.symm.trans hw
    obtain rfl := contains_unique hys hxs
    exact .name (hdecl x hx).1 rfl
  | functionDef =>
    cases hschema
    refine List.forall_mem_cons.mpr ⟨hinside rfl fun w hw => ?_, hrest rfl⟩
    exact essential_name hs hv (by decide) rfl (fun k => (isNamed_of_isA k).1) hw
  | forRangeLoopStmt =>
    cases hschema
    refine List.forall_mem_cons.mpr ⟨hinside rfl fun w hw => ?_, hrest rfl⟩
    exact essential_name hs hv (by decide) rfl (fun k => (isNamed_of_isA k).2) hw
  | forCountLoopStmt =>
    cases hschema
    refine List.forall_mem_cons.mpr ⟨hinside rfl fun w hw => ?_, hrest rfl⟩
    exact essential_name hs hv (by decide) rfl (fun k => (isNamed_of_isA k).2) hw
  | functionAsyncDef =>
    cases hschema
    obtain ⟨p, hp, a, ha, u, ys, hu, hys, -⟩ :=
      hmet (.inside .prototype (.inside .args (.named .nodes))) (by simp)
    obtain ⟨k, hk, hnamed⟩ :=
      essential_name hs hv (by decide) rfl (fun k => (isNamed_of_isA k).1) hp
    refine List.forall_mem_cons.mpr ⟨.computed hv hp hk hnamed, List.forall_mem_cons.mpr
      ⟨⟨.plain rfl, fun q hq => ⟨.plain rfl, fun b hb => ⟨.plain rfl, ?_⟩⟩⟩, hrest rfl⟩⟩
    exact fun w xs hw hxs x hx => .name (hproper.arguments hv hq hb hw hxs hx) rfl
  | catchHandlerStmt =>
    cases hschema
    have hform := hmet (.mayInside .name (.form .identifier)) (by simp)
    refine List.forall_mem_cons.mpr ⟨⟨.name hv rfl, fun _ _ _ => trivial⟩,
      List.forall_mem_cons.mpr ⟨⟨.name hv rfl, fun w hw hne => ?_⟩, hrest rfl⟩⟩
    rcases hform with hnone | ⟨u, hu, hident⟩
    · exact absurd (Except.ok.inj (hw.symm.trans hnone)) hne
    · cases hu.symm.trans hw
      exact .name hident rfl
  | _ => cases hschema <;> exact absurd rfl hown

/-- **Shapes.** A program and the tree that stands for it have the same shape. -/
theorem Program.sameShape {t : Bool → Store} {w : Bool → Value} (hs : Built (t false))
    (hR : Likeness (t false) (t true) R) (h : Program (t false) d (w false))
    (hw : Value.Pair R (w false) (w true)) : SameShape t d w := by
  induction d generalizing w with
  | zero => exact h
  | succ d ih =>
    obtain ⟨⟨g, r, reqs, hform, hschema, hmet⟩, hproper⟩ := h
    refine ⟨g, r, reqs, hR.mirror.hasForm hw hform, hschema, fun q hq => ?_⟩
    exact (hmet q hq).shared hR.mirror (fun z hz => ih hz) hw
      (sees_of_schema hs hform hschema hmet hproper q hq)

end Programs

section Texts

variable {s s' : Store} {R : Address → Address → Prop} {v v' : Value} {d d' e : Nat}

/-- A tree of the fragment has one term, whatever the depth that it is converted to, if only that
is not less than its levels. -/
theorem Core.run_term_eq (h : Core s d v) (he : d ≤ e) : run (term v) s = run (toDepth e v) s := by
  obtain ⟨t, -, ht⟩ := h.converts
  obtain ⟨t', -, ht'⟩ := h.within_cells.converts
  have htwice := (ht (max e s.cells.size) (by omega)).symm.trans (ht' _ (by omega))
  rw [run_term, ht' _ (Nat.le_succ _), ht e he, htwice]

end Texts

/-! ## Two programs -/

/-- A declaration under a condition. -/
def plainBranch : List Making := [
  .node .literalBoolean [] [(.value, .bool true)],
  .node .int32 [] [],
  .node .literalInt32 [] [(.value, .int 5)],
  .node .variableDeclaration [] [(.name, .text "x"), (.type, .ref 25), (.value, .ref 27)],
  .node .block [] [],
  .child (.ref 32) (.ref 31),
  .node .ifStmt [] [(.condition, .ref 21), (.thenBranch, .ref 32)]]

/-- The same with another node before it, a place in a file, modifiers and a name for the block. -/
def adornedBranch : List Making := [
  .node .int8 [] [],
  .node .place [] [(.line, .int 3), (.col, .int 7)],
  .node .literalBoolean [] [(.value, .bool true), (.loc, .ref 23)],
  .node .int32 [] [],
  .node .literalInt32 [] [(.value, .int 5)],
  .node .variableDeclaration [] [(.name, .text "x"), (.type, .ref 28), (.value, .ref 30),
    (.mutability, .member (.mutability .changing)), (.visibility, .member (.visibility .owner)),
    (.scope, .member (.scoping .everywhere))],
  .node .block [] [(.name, .text "main")],
  .child (.ref 35) (.ref 34),
  .node .ifStmt [] [(.condition, .ref 24), (.thenBranch, .ref 35)]]

/-- Such a tree is in a store, that many addresses later than the plain one. -/
def HasBranch (s : Store) (k : Nat) : Prop :=
  NodeWith s (.ref (34 + k)) .ifStmt [(.condition, .ref (21 + k)), (.thenBranch, .ref (32 + k)),
    (.elseBranch, .none)] ∧
  NodeWith s (.ref (21 + k)) .literalBoolean [(.value, .bool true)] ∧
  IsContainer s (.ref (32 + k)) (33 + k) [.ref (31 + k)] ∧
  NodeWith s (.ref (31 + k)) .variableDeclaration [(.name, .text "x"), (.type, .ref (25 + k)),
    (.value, .ref (27 + k))] ∧
  s.formOf? (.ref (25 + k)) = some .int32 ∧
  NodeWith s (.ref (27 + k)) .literalInt32 [(.value, .int 5)]

instance (s : Store) (k : Nat) : Decidable (HasBranch s k) :=
  inferInstanceAs (Decidable (_ ∧ _))

theorem program_branch {s : Store} {k : Nat} (h : HasBranch s k) :
    Program s 3 (.ref (34 + k)) := by
  obtain ⟨hv, hc, hb, hx, ht, hy⟩ := h
  have hproper : ∀ {v g}, s.formOf? v = some g → g ∉ [Form.assignmentExpr, .lambdaExpr,
      .functionAsyncDef] → Proper s v := by
    intro v g hv hg
    refine ⟨fun h => ?_, fun h => ?_, fun h => ?_⟩
    all_goals
      cases hv.symm.trans h
      exact absurd (by decide) hg
  have hcc : Child s (Program s 2) .expression (.ref (21 + k)) := by
    refine ⟨⟨⟨_, _, _, hc.1, rfl, ?_⟩, hproper hc.1 (by decide)⟩, roleOf?_eq hc.1⟩
    simp only [List.forall_mem_cons]
    exact ⟨⟨_, hc.2, rfl⟩, List.forall_mem_nil _⟩
  have hct : Child s (Program s 1) .expression (.ref (25 + k)) :=
    ⟨⟨⟨_, _, _, ht, rfl, List.forall_mem_nil _⟩, hproper ht (by decide)⟩, roleOf?_eq ht⟩
  have hcy : Child s (Program s 1) .expression (.ref (27 + k)) := by
    refine ⟨⟨⟨_, _, _, hy.1, rfl, ?_⟩, hproper hy.1 (by decide)⟩, roleOf?_eq hy.1⟩
    simp only [List.forall_mem_cons]
    exact ⟨⟨_, hy.2, rfl⟩, List.forall_mem_nil _⟩
  have hcx : Child s (Program s 2) .statement (.ref (31 + k)) := by
    refine ⟨⟨⟨_, _, _, hx.1, rfl, ?_⟩, hproper hx.1 (by decide)⟩, roleOf?_eq hx.1⟩
    simp only [List.forall_mem_cons]
    exact ⟨⟨_, hx.2.1⟩, ⟨_, hx.2.2.1, hct⟩, ⟨_, hx.2.2.2, hcy⟩, List.forall_mem_nil _⟩
  refine ⟨⟨_, _, _, hv.1, rfl, ?_⟩, hproper hv.1 (by decide)⟩
  simp only [List.forall_mem_cons]
  refine ⟨⟨_, hv.2.1, hcc⟩, ⟨_, hv.2.2.1, _, _, hb, ?_⟩, .inl hv.2.2.2, List.forall_mem_nil _⟩
  exact fun z hz => .inl (List.mem_singleton.mp hz ▸ hcx)

/-- The cells of the first program, and those that stand for them. -/
def branchPairs : List (Address × Address) :=
  [1, 2, 4, 8, 9, 18].map (fun a => (a, a)) ++ (List.range 14).map fun i => (21 + i, 24 + i)

end ProgramTree.Target
