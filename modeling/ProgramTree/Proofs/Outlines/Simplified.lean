/-
Simplified outlines are full outlines without metadata.

A form is outlined by the rule of the nearest form that has one (`outliner?`). What a rule
finds in the forms that it outlines is a table over all forms (`suits`): their keys begin as
keys do, what they show as plain data is a scalar, and the parts that they spread are nodes.
So both outlines of a node agree if those of smaller values do, and the depth to which values
are described counts the steps.
-/
import ProgramTree.Proofs.Outlines.Rules

namespace ProgramTree

open Look

namespace Outline

/-! ## Which rule outlines a form -/

/-- The nearest form that has a rule of its own. -/
def outliner? (form : Form) : Option Form :=
  form.ancestors.find? fun g => (own? g).isSome

theorem findSome?_own? (form : Form) :
    form.ancestors.findSome? own? = (outliner? form).bind own? := by
  rw [outliner?]
  induction form.ancestors with
  | nil => rfl
  | cons g rest ih =>
    rw [List.findSome?_cons, List.find?_cons]
    cases hg : own? g with
    | none => exact ih
    | some rule => exact hg.symm

/-- Whether a form keeps a scalar in a field. -/
def keepsScalar (form : Form) (f : Field) : Bool :=
  form.computed? f = none && form.kept.any fun e => e.1 = f && scalarHint e.2

/-- Whether nodes of a form lack a telling field. -/
def lacksField (form : Form) (f : Field) : Bool :=
  f ∈ form.telling && f ∉ form.kept.map Prod.fst && form.lent? f = none && form.computed? f = none

/-- The fields that the rule of a form shows as plain data. -/
def shown : Form → List Field
  | .dataType | .identifier => [.name]
  | .literal | .literalString | .literalUTF8String | .literalUTF8Char | .literalDate | .literalTime
  | .literalTimestamp | .literalDateTime => [.value]
  | _ => []

/-- The fields of which the rule of a form needs that they hold certain nodes. -/
def promised : Form → List (Field × Hint)
  | .literalComplex => [(.value, .pair)]
  | .forRangeLoopStmt | .forRangeLoopExpr | .forCountLoopStmt | .forCountLoopExpr
  | .asyncForRangeLoopStmt | .asyncForRangeLoopExpr => [(.body, .node .block)]
  | .whileStmt | .whileExpr => [(.condition, .node .expr), (.body, .node .block)]
  | _ => []

/-- The forms whose rule takes the label for the key. -/
def takesLabel (g : Form) : Bool :=
  [.nodeList, .arguments, .variableDeclaration, .inlineVariableDeclaration, .variableAssignment,
   .augAssign, .package, .ellipsis, .comprehensionClause, .comprehension, .listComprehension,
   .setComprehension].contains g

/-- The beginning of a key that the rule of a form makes of the name of the form that is
outlined. -/
def namedKey? (form : Form) : Form → Option String
  | .identifier => some (.ofList (form.name.toList.map Char.toUpper))
  | .literalComplex => some form.name
  | _ => none

/-- What the rule of a form has in the forms that it outlines. -/
def suits (form g : Form) : Bool :=
  (form.isA .node == decide (g ≠ .withItem)) &&
  (form.isA .block == (g = .block || g = .moduleRoot)) &&
  (!form.isBare || (g = .dataType && lacksField form .name)) &&
  ((shown g).all fun f => form.isBare || keepsScalar form f || (g = .literal && lacksField form f)) &&
  (promised g).all form.kept.contains &&
  (!takesLabel g || takesLabel form || form = .program) &&
  (namedKey? form g).all (isKey false)

theorem suits_outliner (form : Form) : (outliner? form).all (suits form) = true := by
  cases form <;> decide

/-! ## Labels that are keys -/

section Labels

variable {s : Store} {v : Value} {n : Node} {d : Describe} {isBlock : Bool} {k : String}

theorem isKey_of_wrapped {opening closing : String} {f : Field}
    (hopening : isKey isBlock opening = true)
    (h : run (Label.wrapped opening f closing d v) s = .ok k) : isKey isBlock k = true := by
  rw [Label.wrapped, run_bind] at h
  obtain ⟨text, -, h⟩ := bind_eq_ok.mp h
  cases h
  exact isKey_append (isKey_append hopening _) _

theorem isKey_of_declaration {name : String} (hname : isKey isBlock name = true)
    (h : run (Label.declaration name d v) s = .ok k) : isKey isBlock k = true := by
  simp only [Label.declaration, run_bind, run_pure] at h
  obtain ⟨_, -, h⟩ := bind_eq_ok.mp h
  obtain ⟨_, -, h⟩ := bind_eq_ok.mp h
  obtain ⟨_, -, h⟩ := bind_eq_ok.mp h
  cases h
  exact isKey_append (isKey_append (isKey_append (isKey_append (isKey_append hname _) _) _) _) _

theorem isKey_of_arguments (h : run (Label.arguments d v) s = .ok k) : isKey false k = true := by
  simp only [Label.arguments, run_bind, run_pure] at h
  obtain ⟨_, -, h⟩ := bind_eq_ok.mp h
  obtain ⟨_, -, h⟩ := bind_eq_ok.mp h
  cases h
  exact isKey_append (isKey_append (by decide) _) _

theorem findsKey_blockKey : FindsKey s true (blockKey d v) := by
  intro k hk
  simp only [blockKey, run_bind, run_pure] at hk
  obtain ⟨_, -, hk⟩ := bind_eq_ok.mp hk
  obtain ⟨_, -, hk⟩ := bind_eq_ok.mp hk
  cases hk
  exact isKey_append (isKey_append (isKey_append (isKey_append (by decide) _) _) _) _

theorem findsKey_moduleKey : FindsKey s true (moduleKey d v) := by
  intro k hk
  simp only [moduleKey, run_bind, run_pure] at hk
  obtain ⟨_, -, hk⟩ := bind_eq_ok.mp hk
  cases hk
  exact isKey_append (isKey_append (by decide) _) _

/-- A rule takes the label for the key only where labels begin as keys do. -/
theorem findsKey_label (hn : s.nodeOf? v = some n)
    (hform : takesLabel n.form = true ∨ n.form = .program) : FindsKey s false (label d v) := by
  intro k hk
  simp only [label, run_bind, run_node?, hn, ok_bind, Label.ofNode] at hk
  generalize n.form = form at hform hk ⊢
  cases form with
  | nodeList | ellipsis | comprehension | listComprehension | setComprehension =>
    cases hk
    decide
  | arguments => exact isKey_of_arguments hk
  | variableDeclaration | inlineVariableDeclaration => exact isKey_of_declaration (by decide) hk
  | variableAssignment | augAssign | package | program | comprehensionClause =>
    exact isKey_of_wrapped (by decide) hk
  | _ => exact absurd hform (by decide)

end Labels

/-! ## The outlines of a node -/

section Nodes

variable {s : Store} {v : Value} {n : Node} {d : Describe}

theorem exists_of_keepsScalar {form : Form} {f : Field} (h : keepsScalar form f = true) :
    ∃ hint, (f, hint) ∈ form.kept ∧ scalarHint hint = true ∧ form.computed? f = none := by
  simp only [keepsScalar, Bool.and_eq_true, decide_eq_true_eq] at h
  obtain ⟨⟨_, hint⟩, hmem, heq⟩ := List.any_eq_true.mp h.2
  simp only [Bool.and_eq_true, decide_eq_true_eq] at heq
  obtain ⟨rfl, hscalar⟩ := heq
  exact ⟨hint, hmem, hscalar, h.1⟩

theorem run_lacksField {f : Field} (hs : Built s) (hn : s.nodeOf? v = some n)
    (h : lacksField n.form f = true) :
    run (field v f) s = .error (.noField n.form.name f.key) := by
  simp only [lacksField, Bool.and_eq_true, decide_eq_true_eq] at h
  exact hs.run_field_missing hn h.1.1.1 h.1.1.2 h.1.2 h.2

theorem not_run_lacksField {f : Field} (hs : Built s) (hn : s.nodeOf? v = some n)
    (h : lacksField n.form f = true) (w : Value) : run (field v f) s ≠ .ok w := by
  rw [run_lacksField hs hn h]
  simp

theorem not_run_dataType {simplified : Bool} (h : ∀ w, run (field v .name) s ≠ .ok w) (x : Doc) :
    run (dataType d simplified v) s ≠ .ok x := by
  intro hx
  rw [dataType, run_bind] at hx
  obtain ⟨_, -, hx⟩ := bind_eq_ok.mp hx
  rw [run_bind] at hx
  obtain ⟨w, hw, -⟩ := bind_eq_ok.mp hx
  exact h w hw

theorem not_run_literal {simplified : Bool} (h : ∀ w, run (field v .value) s ≠ .ok w) (x : Doc) :
    run (literal d simplified v) s ≠ .ok x := by
  intro hx
  rw [literal, run_bind] at hx
  obtain ⟨_, -, hx⟩ := bind_eq_ok.mp hx
  rw [run_bind, Describe.fieldText, run_bind] at hx
  obtain ⟨_, htext, -⟩ := bind_eq_ok.mp hx
  obtain ⟨w, hw, -⟩ := bind_eq_ok.mp htext
  exact h w hw

theorem map_toUpper_eq (name : String) :
    name.map Char.toUpper = .ofList (name.toList.map Char.toUpper) :=
  String.toList_inj.mp (by simp)

/-- What is known of a node that the rule of a form outlines. -/
structure Suited (s : Store) (v : Value) (n : Node) (g : Form) : Prop where
  found : s.nodeOf? v = some n
  node : n.form.isA .node = decide (g ≠ .withItem)
  block : n.form.isA .block = (g = .block || g = .moduleRoot)
  bare : n.form.isBare = true → g = .dataType ∧ lacksField n.form .name = true
  scalar : ∀ f ∈ shown g, n.form.isBare = false → keepsScalar n.form f = true ∨
    g = .literal ∧ lacksField n.form f = true
  kept : ∀ e ∈ promised g, e ∈ n.form.kept
  label : takesLabel g = true → takesLabel n.form = true ∨ n.form = .program
  named : ∀ {key}, namedKey? n.form g = some key → isKey false key = true

/-- A node is outlined by a rule that suits it, or not at all. -/
theorem exists_suited (hn : s.nodeOf? v = some n) :
    (∃ g rule, Suited s v n g ∧ n.form.isA g = true ∧ own? g = some rule ∧
      ∀ d b, ofNode d b n v = rule d b v) ∨ ∀ d b x, run (ofNode d b n v) s ≠ .ok x := by
  cases hg : outliner? n.form with
  | none =>
    refine .inr fun d b x => ?_
    rw [ofNode, findSome?_own?, hg]
    exact Build.run_lacks_ne
  | some g =>
    obtain ⟨rule, hrule⟩ := Option.isSome_iff_exists.mp
      (List.find?_some (p := fun g => (own? g).isSome) hg)
    have hsuits := suits_outliner n.form
    simp only [hg, Option.all_some, suits, Bool.and_eq_true, beq_iff_eq] at hsuits
    obtain ⟨⟨⟨⟨⟨⟨hnode, hblock⟩, hbare⟩, hshown⟩, hkept⟩, hlabel⟩, hname⟩ := hsuits
    refine .inl ⟨g, rule, ⟨hn, hnode, hblock, fun h => by simpa [h] using hbare, fun f hf h => ?_,
      fun e he => by simpa using List.all_eq_true.mp hkept e he, fun h => by simpa [h] using hlabel,
      fun h => by simpa [h] using hname⟩, ?_, hrule, fun d b => ?_⟩
    · simpa [h] using List.all_eq_true.mp hshown f hf
    · simpa [Form.isA] using List.mem_of_find?_eq_some hg
    · rw [ofNode, findSome?_own?, hg, Option.bind_some, hrule]

namespace Suited

variable {g : Form}

theorem isNode (hg : Suited s v n g) (h : g ≠ .withItem ∧ g ≠ .dataType) :
    IsNode s (g = .block || g = .moduleRoot) v n :=
  ⟨hg.found, by simpa [h.1] using hg.node, by simpa [h.2] using hg.bare, hg.block⟩

theorem exists_scalar (hg : Suited s v n g) (f : Field) (hf : f ∈ shown g)
    (hbare : n.form.isBare = false) (hne : g ≠ .literal) :
    ∃ hint, (f, hint) ∈ n.form.kept ∧ scalarHint hint = true ∧ n.form.computed? f = none :=
  exists_of_keepsScalar ((hg.scalar f hf hbare).resolve_right fun h => hne h.1)

end Suited

/-- The rule of a form outlines alike, simplified or not, each node that it suits. -/
theorem follows_own {g : Form} {rule : Rule} (hs : Built s) (hd : Agrees s d)
    (hg : Suited s v n g) (hrule : own? g = some rule) :
    Follows s (rule d false v) (rule d true v) (Outlines s v) := by
  have hn := hg.found
  have hv := hg.isNode
  have hlabelled : takesLabel g = true → FindsKey s false (label d v) := fun h =>
    findsKey_label hn (hg.label h)
  cases g <;> cases hrule
  case node => exact .pure ⟨Doc.agree_scalar rfl, fun _ => .inl rfl⟩
  case functionPrototype => exact fun _ h => by cases h
  case withItem =>
    exact follows_withItem hd (by simpa [Store.isForm, Store.formOf?, hn] using hg.node)
  case nodeList | arguments => exact follows_container hs hd (hv (by decide)) (hlabelled rfl)
  case block => exact follows_container hs hd (hv (by decide)) findsKey_blockKey
  case moduleRoot => exact follows_container hs hd (hv (by decide)) findsKey_moduleKey
  case exprType => exact follows_exprType (hv (by decide))
  case undefined => exact follows_undefined hs hd (hv (by decide))
  case dataType =>
    cases hbare' : n.form.isBare with
    | true =>
      exact fun _ h => absurd h (not_run_dataType (not_run_lacksField hs hn (hg.bare hbare').2) _)
    | false =>
      obtain ⟨_, hkept, hhint, hc⟩ := hg.exists_scalar .name (by decide) hbare' (by decide)
      exact follows_dataType hs hd ⟨hn, hg.node, hbare', hg.block⟩ hkept hhint hc
  case literal =>
    rcases hg.scalar .value (by decide) (hv (by decide)).notBare with h | ⟨-, h⟩
    · obtain ⟨_, hkept, hhint, -⟩ := exists_of_keepsScalar h
      exact follows_literal hs hd (hv (by decide)) hkept hhint
    · exact fun _ h' => absurd h' (not_run_literal (not_run_lacksField hs hn h) _)
  case identifier =>
    obtain ⟨_, hkept, hhint, hc⟩ := hg.exists_scalar .name (by decide) (hv (by decide)).notBare
      (by decide)
    refine follows_identifier hs hd (hv (by decide)) ?_ hkept hhint hc
    rw [map_toUpper_eq]
    exact hg.named rfl
  case literalString | literalUTF8String | literalUTF8Char | literalDate | literalTime
      | literalTimestamp | literalDateTime =>
    obtain ⟨_, hkept, hhint, -⟩ := hg.exists_scalar .value (by decide) (hv (by decide)).notBare
      (by decide)
    exact follows_worded hs hd (hv (by decide)) (by decide) hkept hhint
  case literalComplex =>
    exact follows_complex hs hd (hv (by decide)) (hg.named rfl) (hg.kept _ (by decide))
  all_goals replace hv := hv (by decide)
  case variableDeclaration | inlineVariableDeclaration | variableAssignment =>
    exact follows_labelUnder hs hd hv (hlabelled rfl)
  case parenthesizedExpr | functionReturn | yieldFromExpr =>
    exact follows_under hs hd hv (by decide)
  case awaitExpr | yieldExpr => exact follows_underOrEmpty hs hd hv (by decide)
  case lambdaExpr | walrusOp | assignmentExpr | starred | typeCastExpr =>
    exact follows_headed hs hd hv (by decide) (by decide)
  case boolBinaryOp | boolUnaryOp => exact follows_boolean hs hd hv (by decide) (by decide)
  case breakStmt | continueStmt => exact follows_bare hs hd hv (by decide)
  case ellipsis => exact follows_bareLabel hs hd hv (hlabelled rfl)
  case deleteStmt => exact follows_delete hs hd hv
  case unaryOp => exact follows_unary hs hd hv
  case binaryOp => exact follows_binary hs hd hv
  case augAssign => exact follows_augAssign hs hd hv (hlabelled rfl)
  case compareOp => exact follows_compare hs hd hv
  case argument => exact follows_argument hs hd hv
  case functionCall => exact follows_call hs hd hv
  case functionDef | functionAsyncDef => exact follows_function hs hd hv (by decide)
  case yieldStmt => exact follows_yieldStmt hs hd hv
  case ifStmt => exact follows_conditional hs hd hv (follows_numbered (by decide))
  case ifExpr => exact follows_conditional hs hd hv (follows_fixedKey (by decide))
  case forRangeLoopStmt | forCountLoopStmt =>
    exact follows_loop hs hd hv (hg.kept _ (by decide)) (by decide)
      (follows_numbered (by decide))
  case forRangeLoopExpr | forCountLoopExpr =>
    exact follows_loop hs hd hv (hg.kept _ (by decide)) (by decide)
      (follows_fixedKey (by decide))
  case asyncForRangeLoopStmt | asyncForRangeLoopExpr =>
    exact follows_asyncLoop hs hd hv (hg.kept _ (by decide)) (by decide) (by decide)
  case whileStmt =>
    exact follows_whileLoop hs hd hv (hg.kept _ (by decide)) (hg.kept _ (by decide))
      (follows_numbered (by decide))
  case whileExpr =>
    exact follows_whileLoop hs hd hv (hg.kept _ (by decide)) (hg.kept _ (by decide))
      (follows_fixedKey (by decide))
  case caseStmt => exact follows_caseBranch hs hd hv
  case switchStmt => exact follows_switch hs hd hv
  case gotoStmt => exact follows_goto hs hd hv
  case throwStmt => exact follows_throwStmt hs hd hv
  case catchHandlerStmt | exceptionHandlerStmt | finallyHandlerStmt =>
    exact follows_guarded hs hd hv (by decide) (by decide) (by decide)
  case withStmt => exact follows_withStmt hd hv
  case comprehensionClause => exact follows_clause hs hd hv (hlabelled rfl)
  case comprehension => exact follows_comprehension hs hd hv (hlabelled rfl)
  case listComprehension | setComprehension => exact follows_collected hs hd hv (hlabelled rfl)
  case generatorExpr => exact follows_generator hs hd hv
  case classDeclStmt => exact follows_classDecl hs hd hv
  case classDefStmt => exact follows_classDef hs hd hv
  case enumDeclStmt | structDeclStmt | structDefStmt =>
    exact follows_typeDecl hs hd hv (by decide) (by decide)
  case target => exact follows_target hs hd hv
  case package => exact follows_package hs hd hv (hlabelled rfl)
  case aliasExpr => exact follows_importedName hs hd hv
  case importStmt | importExpr => exact follows_importNames hs hd hv (by decide)
  case importFromStmt | importFromExpr => exact follows_importFrom hs hd hv (by decide)
  case subscriptExpr => exact follows_subscript hs hd hv

theorem follows_ofNode (hs : Built s) (hd : Agrees s d) (hn : s.nodeOf? v = some n) :
    Follows s (ofNode d false n v) (ofNode d true n v) (Outlines s v) := by
  rcases exists_suited hn with ⟨g, rule, hg, -, hrule, heq⟩ | hnone
  · rw [heq, heq]
    exact follows_own hs hd hg hrule
  · exact fun x h => absurd h (hnone d false x)

end Nodes

/-! ## Down to any depth -/

variable {s : Store} {display : Display}

theorem agrees_step {d : List Address → Describe} {opened : List Address} (hs : Built s)
    (hd : Agrees s (d opened)) : Agrees s (Describe.step display d opened) := by
  refine ⟨fun v => .same_bind fun n hn => ?_, fun w x hw h => ?_⟩
  · rw [run_node?] at hn
    cases n with
    | none => exact fun _ h => absurd h Build.run_lacks_ne
    | some n => exact follows_ofNode hs hd (Except.ok.inj hn)
  · cases w with
    | member m => cases hw
    | ref a => cases hw
    | _ =>
      cases h
      rfl

theorem agrees_toDepth (hs : Built s) (depth : Nat) (opened : List Address) :
    Agrees s (Describe.toDepth display depth opened) := by
  induction depth generalizing opened with
  | zero => exact ⟨fun _ _ h => (by cases h), fun _ _ _ h => (by cases h)⟩
  | succ depth ih => exact agrees_step hs (ih opened)

/-- Both outlines of a value in a built store. -/
theorem follows_look (hs : Built s) (v : Value) :
    Follows s (Look.outline false v) (Look.outline true v) (Outlines s v) :=
  .same_bind fun _ _ => (agrees_toDepth hs _ _).outline v

end Outline

/-- The simplified outline of a node is what is left of the full outline without the metadata,
up to numbers in keys and to what stands under the key of an argument. -/
theorem simplified_outline {s : Store} {v : Value} {full : Doc} (hs : Built s)
    (hfull : run (outline false v) s = .ok full) :
    ∃ simple, run (outline true v) s = .ok simple ∧ simple.hasMetadata = false ∧
      Doc.Matches full.stripped simple := by
  obtain ⟨simple, hsimple, h⟩ := Outline.follows_look hs v full hfull
  exact ⟨simple, hsimple, h.agree.clean, h.agree.stripped⟩

/-- What is made for a managed context with one item and an empty body. -/
def managedContext : List Making :=
  [.node .variableUse [] [(.name, .text "x")], .node .withItem [] [(.contextExpr, .ref 21)],
   .cell (.list [.ref 25]), .node .block [] [],
   .node .withStmt [] [(.items, .ref 26), (.body, .ref 27)]]

theorem managedContext_simplified : ∃ s full simple, Store.made? managedContext = some s ∧
    run (outline false (.ref 29)) s = .ok full ∧ run (outline true (.ref 29)) s = .ok simple ∧
    simple.hasMetadata = false ∧ Doc.Matches full.stripped simple := by
  obtain ⟨s, hs, hok⟩ := (Option.any_eq_true _ _).mp (show (Store.made? managedContext).any
    (fun s => (run (outline false (.ref 29)) s).isOk) = true by decide +kernel)
  obtain ⟨full, hfull⟩ := exists_of_isOk hok
  obtain ⟨simple, hsimple⟩ := simplified_outline (built_of_made hs) hfull
  exact ⟨s, full, simple, hs, hfull, hsimple⟩

/-- The keys of the items in the outline of a managed context. -/
def itemKeys : Doc → List String
  | .dict [(_, .dict ((_, .list items) :: _))] => items.flatMap fun
    | .dict es => es.map fun
      | (.text key, _) => key
      | _ => ""
    | _ => []
  | _ => []

/-- The key of an item is no metadata, and yet a simplified outline leaves it out. -/
theorem managedContext_loses_key : (Store.made? managedContext).map (fun s =>
    ((run (outline false (.ref 29)) s).map itemKeys,
      (run (outline true (.ref 29)) s).map itemKeys)) =
    some (.ok ["WithItem"], .ok ["CONTEXT"]) := by
  decide +kernel

end ProgramTree
