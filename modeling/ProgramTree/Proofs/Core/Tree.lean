/-
Core trees.

The core fragment is the set of trees that ordinary programs are made of. What a
node of it looks like is a table, `schema`: for each form the place that its term
takes and what its fields must hold. The table says what constructors leave behind,
so it mentions fields and the nodes in them, and never a rule of the conversion.

A tree is built up in steps: `Core s d v` says that the value holds a node of the
fragment whose nodes below it go at most `d` deep. All that a step asks of the nodes
below is monotone (`Requirement.Met.mono`), so a tree that has any depth has at most
as many levels as the store has cells (`Core.within_cells`).
-/
import ProgramTree.Proofs.Grammar

namespace ProgramTree

/-- Whether a value is a number, a text, a truth value or nothing. -/
def Value.isScalar : Value → Bool
  | .none | .bool _ | .int _ | .float _ | .text _ => true
  | _ => false

namespace Target

open Look

/-- What a field of a node must hold. -/
inductive Requirement
  /-- The node has this form. -/
  | form (g : Form)
  /-- The field is missing. -/
  | missing (f : Field)
  | text (f : Field)
  | boolean (f : Field)
  | integer (f : Field)
  | scalar (f : Field)
  /-- A text or nothing. -/
  | label (f : Field)
  /-- A pair of scalars. -/
  | scalarPair (f : Field)
  /-- The text of a sign before an operand. -/
  | unarySign (f : Field)
  /-- A node of the fragment. -/
  | child (f : Field) (r : Role)
  /-- A node of the fragment or nothing. -/
  | mayChild (f : Field) (r : Role)
  /-- A collection of nodes of the fragment. -/
  | children (f : Field) (r : Role)
  /-- A container of at least one node of the fragment, or nothing. -/
  | mayChildren (f : Field) (r : Role)
  /-- A dictionary of nodes of the fragment. -/
  | entries (f : Field)
  /-- A block of statements and expressions. -/
  | block (f : Field)
  | mayBlock (f : Field)
  /-- A block of one expression. -/
  | branch (f : Field)
  | mayBranch (f : Field)
  /-- A collection of nodes that have names. -/
  | named (f : Field)
  /-- The same with at least one node. -/
  | someNamed (f : Field)
  /-- A collection of declarations that have names. -/
  | declared (f : Field)
  /-- Signs and as many operands. -/
  | comparisons
  /-- What is called is a text, or nothing is called. -/
  | mayCall
  /-- A list of nodes of the fragment, or no such field. -/
  | mayItems (f : Field) (r : Role)
  /-- The same requirement of the thing in a field. -/
  | inside (f : Field) (q : Requirement)
  /-- The same of what is in the field, if something is. -/
  | mayInside (f : Field) (q : Requirement)

/-- What each form of the fragment is made of: the place of its term, and what the
fields hold. -/
def schema : Form → Option (Role × List Requirement)
  -- Types.
  | .int8 | .int16 | .int32 | .int64 | .uint8 | .uint16 | .uint32 | .uint64 | .uint128
  | .float16 | .float32 | .float64 | .complex32 | .complex64 | .utf8Char | .utf8String
  | .date | .dateTime | .time | .timestamp => some (.expression, [])
  | .dataType | .anyType | .noneType | .boolean | .collectionType | .listType | .setType
  | .dictType | .tupleType | .number | .integer | .unsignedInteger | .signedInteger | .int128
  | .floating | .complex | .string | .temporal => some (.expression, [.missing .id])
  -- Names and literals.
  | .variableUse | .identifier => some (.expression, [.text .name])
  | .literalBoolean | .literalInt8 | .literalInt16 | .literalInt32 | .literalInt64
  | .literalInt128 | .literalUInt8 | .literalUInt16 | .literalUInt32 | .literalUInt64
  | .literalUInt128 | .literalFloat16 | .literalFloat32 | .literalFloat64 | .literalString
  | .literalUTF8Char | .literalUTF8String | .literalDate =>
    some (.expression, [.scalar .value])
  | .literalNone | .literalDateTime | .literalTime | .literalTimestamp | .literalComplex
  | .ellipsis => some (.expression, [])
  | .literalComplex32 | .literalComplex64 => some (.expression, [.scalarPair .value])
  | .literalList | .literalTuple | .literalSet =>
    some (.expression, [.children .elements .expression])
  | .literalDict => some (.expression, [.entries .elements])
  -- Operators.
  | .binaryOp | .boolBinaryOp =>
    some (.expression, [.text .opCode, .child .lhs .expression, .child .rhs .expression])
  | .andOp | .orOp | .xorOp | .nandOp | .norOp | .xnorOp | .walrusOp =>
    some (.expression, [.child .lhs .expression, .child .rhs .expression])
  | .unaryOp | .boolUnaryOp =>
    some (.expression, [.unarySign .opCode, .child .operand .expression])
  | .notOp => some (.expression, [.child .operand .expression])
  | .compareOp => some (.expression, [.child .left .expression, .comparisons])
  -- Other expressions.
  | .parenthesizedExpr | .awaitExpr | .yieldFromExpr | .starred =>
    some (.expression, [.child .value .expression])
  | .yieldExpr => some (.expression, [.mayChild .value .expression])
  | .functionCall =>
    some (.expression, [.text .fn, .children .args .expression])
  | .subscriptExpr =>
    some (.expression, [.child .value .expression, .child .index .expression,
      .child .lower .expression, .child .upper .expression, .child .step .expression])
  | .typeCastExpr =>
    some (.expression, [.child .targetType .expression, .child .expr .expression])
  | .lambdaExpr => some (.expression, [.named .params, .child .body .expression])
  | .ifExpr =>
    some (.expression, [.child .condition .expression, .branch .thenBranch,
      .mayBranch .elseBranch])
  | .listComprehension | .setComprehension | .generatorExpr =>
    some (.expression, [.child .element .expression, .children .generators .clause])
  | .comprehensionClause =>
    some (.clause, [.child .target .expression, .child .iterable .expression,
      .children .conditions .expression, .boolean .isAsync])
  -- Functions and classes.
  | .argument => some (.parameter, [.text .name, .child .type .expression])
  | .arguments => some (.parameters, [.children .nodes .parameter])
  | .functionPrototype =>
    some (.statement, [.text .name, .inside .args (.children .nodes .parameter),
      .mayChild .returnType .expression])
  | .functionDef =>
    some (.statement, [.inside .prototype (.text .name),
      .inside .prototype (.child .args .parameters),
      .inside .prototype (.mayChild .returnType .expression), .block .body])
  | .functionAsyncDef =>
    some (.statement, [.text .name, .inside .prototype (.inside .args (.named .nodes)),
      .inside .prototype (.mayChild .returnType .expression), .block .body])
  | .classDefStmt => some (.statement, [.text .name, .boolean .isAbstract, .block .body])
  | .enumDeclStmt => some (.statement, [.text .name, .declared .attributes])
  | .structDeclStmt | .structDefStmt =>
    some (.statement, [.text .name, .children .attributes .statement])
  -- Assignments and simple statements.
  | .variableDeclaration =>
    some (.statement, [.text .name, .child .type .expression, .child .value .expression])
  | .variableAssignment => some (.statement, [.text .name, .child .value .expression])
  | .assignmentExpr =>
    some (.statement, [.someNamed .targets, .child .value .expression])
  | .augAssign =>
    some (.statement, [.child .target .expression, .text .opCode, .child .value .expression])
  | .functionReturn | .yieldStmt => some (.statement, [.mayChild .value .expression])
  | .breakStmt | .continueStmt => some (.statement, [])
  | .deleteStmt => some (.statement, [.children .value .expression])
  | .aliasExpr => some (.imported, [.text .name, .label .asname])
  | .importStmt => some (.statement, [.children .names .imported])
  | .importFromStmt =>
    some (.statement, [.children .names .imported, .text .moduleName, .integer .level])
  -- Branches, loops and faults.
  | .ifStmt =>
    some (.statement, [.child .condition .expression, .block .thenBranch,
      .mayBlock .elseBranch])
  | .whileStmt | .doWhileStmt =>
    some (.statement, [.child .condition .expression, .block .body])
  | .forRangeLoopStmt =>
    some (.statement, [.inside .loopVariable (.text .name), .child .start .expression,
      .child .finish .expression, .child .step .expression, .block .body])
  | .forCountLoopStmt =>
    some (.statement, [.inside .initializer (.text .name),
      .inside .initializer (.child .value .expression), .child .condition .expression,
      .inside .condition (.mayItems .comparators .expression), .child .update .expression,
      .block .body])
  | .throwStmt =>
    some (.statement, [.mayChild .exception .expression, .mayInside .exception .mayCall])
  | .catchHandlerStmt =>
    some (.handler, [.mayInside .name (.form .identifier), .mayInside .name (.text .name),
      .mayChildren .types .expression, .block .body])
  | .exceptionHandlerStmt =>
    some (.statement, [.block .body, .children .handlers .handler,
      .mayInside .finallyHandler (.form .finallyHandlerStmt),
      .mayInside .finallyHandler (.block .body)])
  | _ => none

/-- The place of the term that a node of the fragment converts to. -/
def roleOf? (s : Store) (v : Value) : Option Role :=
  ((s.formOf? v).bind schema).map Prod.fst

theorem roleOf?_eq {s : Store} {v : Value} {g : Form} (h : s.formOf? v = some g) :
    roleOf? s v = (schema g).map Prod.fst := by
  rw [roleOf?, h, Option.bind_some]

section Requirements

variable {s : Store} {P Q : Value → Prop} {v w : Value} {r : Role}

/-! ## Requirements that are met -/

/-- A node of the fragment whose term takes a place. The nodes of the fragment are
those of `P`, of which the whole tree is made in the end. -/
def Child (s : Store) (P : Value → Prop) (r : Role) (v : Value) : Prop :=
  P v ∧ roleOf? s v = some r

/-- A block of statements and expressions. -/
def IsBlock (s : Store) (P : Value → Prop) (b : Value) : Prop :=
  ∃ l xs, IsContainer s b l xs ∧ ∀ x ∈ xs, Child s P .statement x ∨ Child s P .expression x

/-- A value meets a requirement. -/
def Requirement.Met (s : Store) (P : Value → Prop) : Requirement → Value → Prop
  | .form g, v => s.formOf? v = some g
  | .missing f, v => run (field? v f) s = .ok none
  | .text f, v => ∃ id, run (field v f) s = .ok (.text id)
  | .boolean f, v => ∃ b, run (field v f) s = .ok (.bool b)
  | .integer f, v => ∃ n, run (field v f) s = .ok (.int n)
  | .scalar f, v => ∃ w, run (field v f) s = .ok w ∧ w.isScalar = true
  | .label f, v => run (field v f) s = .ok .none ∨ ∃ id, run (field v f) s = .ok (.text id)
  | .scalarPair f, v => ∃ a x y, run (field v f) s = .ok (.ref a) ∧
      s.cell? a = some (.tuple [x, y]) ∧ x.isScalar = true ∧ y.isScalar = true
  | .unarySign f, v => ∃ code sign, run (field v f) s = .ok (.text code) ∧
      UnarySign.ofText? code = some sign
  | .child f r, v => ∃ w, run (field v f) s = .ok w ∧ Child s P r w
  | .mayChild f r, v => run (field v f) s = .ok .none ∨
      ∃ w, run (field v f) s = .ok w ∧ Child s P r w
  | .children f r, v => ∃ w xs, run (field v f) s = .ok w ∧ Contains s w xs ∧
      ∀ x ∈ xs, Child s P r x
  | .mayChildren f r, v => run (field v f) s = .ok .none ∨
      ∃ w l x xs, run (field v f) s = .ok w ∧ IsContainer s w l (x :: xs) ∧
        ∀ y ∈ x :: xs, Child s P r y
  | .entries f, v => ∃ a es, run (field v f) s = .ok (.ref a) ∧ s.cell? a = some (.dict es) ∧
      ∀ e ∈ es, Child s P .expression e.1 ∧ Child s P .expression e.2
  | .block f, v => ∃ b, run (field v f) s = .ok b ∧ IsBlock s P b
  | .mayBlock f, v => run (field v f) s = .ok .none ∨
      ∃ b, run (field v f) s = .ok b ∧ IsBlock s P b
  | .branch f, v => ∃ b l x, run (field v f) s = .ok b ∧ IsContainer s b l [x] ∧
      Child s P .expression x
  | .mayBranch f, v => run (field v f) s = .ok .none ∨
      ∃ b l x, run (field v f) s = .ok b ∧ IsContainer s b l [x] ∧ Child s P .expression x
  | .named f, v => ∃ w xs, run (field v f) s = .ok w ∧ Contains s w xs ∧
      ∀ x ∈ xs, ∃ id, run (field x .name) s = .ok (.text id)
  | .someNamed f, v => ∃ w xs, run (field v f) s = .ok w ∧ Contains s w xs ∧ xs ≠ [] ∧
      ∀ x ∈ xs, ∃ id, run (field x .name) s = .ok (.text id)
  | .declared f, v => ∃ w xs, run (field v f) s = .ok w ∧ Contains s w xs ∧
      ∀ x ∈ xs, s.formOf? x = some .variableDeclaration ∧
        ∃ id, run (field x .name) s = .ok (.text id)
  | .comparisons, v => ∃ o ops w xs, run (field v .ops) s = .ok o ∧ Contains s o ops ∧
      (∀ x ∈ ops, ∃ code, x = .text code) ∧ run (field v .comparators) s = .ok w ∧
      Contains s w xs ∧ (∀ x ∈ xs, Child s P .expression x) ∧ ops.length = xs.length
  | .mayCall, v => run (field? v .fn) s = .ok none ∨ ∃ id, run (field v .fn) s = .ok (.text id)
  | .mayItems f r, v => run (field? v f) s = .ok none ∨
      ∃ a xs, run (field v f) s = .ok (.ref a) ∧ s.cell? a = some (.list xs) ∧
        ∀ x ∈ xs, Child s P r x
  | .inside f q, v => ∃ w, run (field v f) s = .ok w ∧ q.Met s P w
  | .mayInside f q, v => run (field v f) s = .ok .none ∨
      ∃ w, run (field v f) s = .ok w ∧ q.Met s P w

theorem Child.mono (hPQ : ∀ w, P w → Q w) (h : Child s P r v) : Child s Q r v :=
  ⟨hPQ v h.1, h.2⟩

theorem IsBlock.mono (hPQ : ∀ w, P w → Q w) (h : IsBlock s P v) : IsBlock s Q v := by
  obtain ⟨l, xs, hc, hx⟩ := h
  exact ⟨l, xs, hc, fun x hmem => (hx x hmem).imp (Child.mono hPQ) (Child.mono hPQ)⟩

/-- A requirement asks no more of the nodes below than that they are of the
fragment. The induction is on the requirement, for the sake of those inside. -/
theorem Requirement.Met.mono (hPQ : ∀ w, P w → Q w) {q : Requirement} {v : Value}
    (h : q.Met s P v) : q.Met s Q v := by
  induction q generalizing v with
  | form | missing | text | boolean | integer | scalar | label | scalarPair | unarySign | named
  | someNamed | declared | mayCall => exact h
  | child f r =>
    obtain ⟨w, hw, hc⟩ := h
    exact ⟨w, hw, hc.mono hPQ⟩
  | mayChild f r => exact h.imp id fun ⟨w, hw, hc⟩ => ⟨w, hw, hc.mono hPQ⟩
  | children f r =>
    obtain ⟨w, xs, hw, hxs, hc⟩ := h
    exact ⟨w, xs, hw, hxs, fun x hx => (hc x hx).mono hPQ⟩
  | mayChildren f r =>
    exact h.imp id fun ⟨w, l, x, xs, hw, hxs, hc⟩ =>
      ⟨w, l, x, xs, hw, hxs, fun y hy => (hc y hy).mono hPQ⟩
  | entries f =>
    obtain ⟨a, es, hw, hes, hc⟩ := h
    exact ⟨a, es, hw, hes, fun e he => ⟨(hc e he).1.mono hPQ, (hc e he).2.mono hPQ⟩⟩
  | block f =>
    obtain ⟨b, hb, hblock⟩ := h
    exact ⟨b, hb, hblock.mono hPQ⟩
  | mayBlock f => exact h.imp id fun ⟨b, hb, hblock⟩ => ⟨b, hb, hblock.mono hPQ⟩
  | branch f =>
    obtain ⟨b, l, x, hb, hx, hc⟩ := h
    exact ⟨b, l, x, hb, hx, hc.mono hPQ⟩
  | mayBranch f =>
    exact h.imp id fun ⟨b, l, x, hb, hx, hc⟩ => ⟨b, l, x, hb, hx, hc.mono hPQ⟩
  | comparisons =>
    obtain ⟨o, ops, w, xs, ho, hops, htext, hw, hxs, hc, hlen⟩ := h
    exact ⟨o, ops, w, xs, ho, hops, htext, hw, hxs, fun x hx => (hc x hx).mono hPQ, hlen⟩
  | mayItems f r =>
    exact h.imp id fun ⟨a, xs, hw, hxs, hc⟩ => ⟨a, xs, hw, hxs, fun x hx => (hc x hx).mono hPQ⟩
  | inside f q ih =>
    obtain ⟨w, hw, hq⟩ := h
    exact ⟨w, hw, ih hq⟩
  | mayInside f q ih => exact h.imp id fun ⟨w, hw, hq⟩ => ⟨w, hw, ih hq⟩

end Requirements

/-! ## Trees -/

/-- A tree of the fragment with at most so many levels. -/
def Core (s : Store) : Nat → Value → Prop
  | 0, _ => False
  | depth + 1, v => ∃ g r reqs, s.formOf? v = some g ∧ schema g = some (r, reqs) ∧
      ∀ q ∈ reqs, q.Met s (Core s depth) v

variable {s : Store} {v : Value} {d e : Nat}

theorem Core.step_mono (h : ∀ w, Core s d w → Core s e w) (hv : Core s (d + 1) v) :
    Core s (e + 1) v := by
  obtain ⟨g, r, reqs, hform, hschema, hmet⟩ := hv
  exact ⟨g, r, reqs, hform, hschema, fun q hq => (hmet q hq).mono h⟩

/-- **Levels.** No tree has more levels than the store has cells. -/
theorem Core.within_cells (h : Core s d v) : Core s s.cells.size v := by
  have href : ∀ {d w}, Core s d w → ∃ a, w = .ref a ∧ a < s.cells.size := by
    intro d w hw
    cases d with
    | zero => exact absurd hw id
    | succ d =>
      obtain ⟨g, r, reqs, hform, -, -⟩ := hw
      exact Store.ref_of_formOf? hform
  obtain ⟨a, rfl, -⟩ := href h
  refine Convert.mem_of_bounded_steps (P := fun d a => Core s d (.ref a)) (fun _ ha => ha) ?_ ?_ h
  · intro d b hb
    obtain ⟨c, heq, hlt⟩ := href hb
    obtain rfl := Value.ref.inj heq
    exact hlt
  · intro d e hde b hb
    refine Core.step_mono (fun w hw => ?_) hb
    obtain ⟨c, rfl, -⟩ := href hw
    exact hde c hw

end Target

end ProgramTree
