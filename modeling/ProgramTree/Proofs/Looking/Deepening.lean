/-
Descriptions to a greater depth.

Whatever descriptions find at some depth, they find at any greater depth. One look finds what
another one finds (`Look.Finds`) if its parts do, so the rules that make labels and outlines are
monotone in the descriptions of smaller values that they are given (`Deeper`). Plain data are
compared where they are scalars, which is all that outlines show.
-/
import Mathlib.Tactic.GCongr
import ProgramTree.Proofs.Outlines.Simplified

namespace ProgramTree

/-! ## Looks that find as much -/

namespace Look

/-- Whatever one look finds, another one finds too. -/
def Finds {α : Type} (s : Store) (x y : Look α) : Prop :=
  ∀ a, run x s = .ok a → run y s = .ok a

namespace Finds

variable {s : Store} {α β : Type} {x y : Look α} {f g : α → Look β} {v : Value}

@[refl] theorem refl (x : Look α) : Finds s x x := fun _ h => h

theorem of_follows (h : Follows s x y Eq) : Finds s x y := by
  intro a ha
  obtain ⟨b, hb, rfl⟩ := h a ha
  exact hb

theorem follows (h : Finds s x y) : Follows s x y Eq := fun a ha => ⟨a, h a ha, rfl⟩

@[gcongr] theorem bind (hxy : Finds s x y) (hfg : ∀ a, run x s = .ok a → Finds s (f a) (g a)) :
    Finds s (x >>= f) (y >>= g) := by
  intro c hc
  rw [run_bind] at hc ⊢
  obtain ⟨a, ha, hfa⟩ := bind_eq_ok.mp hc
  rw [hxy a ha, ok_bind]
  exact hfg a ha c hfa

@[gcongr] theorem ite {c : Prop} [Decidable c] {x' y' : Look α} (h : Finds s x x')
    (h' : Finds s y y') : Finds s (if c then x else y) (if c then x' else y') := by
  split
  · exact h
  · exact h'

@[gcongr] theorem mapM {xs : List α} (h : ∀ a, Finds s (f a) (g a)) :
    Finds s (xs.mapM f) (xs.mapM g) :=
  of_follows ((Follows.mapM fun a _ => (h a).follows).mono fun _ _ heq =>
    List.forall₂_eq_eq_eq ▸ heq)

@[gcongr] theorem forEach {f g : Value → Look β} (h : ∀ w, Finds s (f w) (g w)) :
    Finds s (forEach v f) (forEach v g) :=
  of_follows ((Follows.forEach fun w => (h w).follows).mono fun _ _ heq =>
    List.forall₂_eq_eq_eq ▸ heq)

end Finds

end Look

open Look

/-! ## Labels -/

/-- Descriptions that find what others find, plain data apart that are no scalars. -/
structure Deeper (s : Store) (d d' : Describe) : Prop where
  text (w : Value) : Finds s (d.text w) (d'.text w)
  quoted (w : Value) : Finds s (d.quoted w) (d'.quoted w)
  doc {w : Value} : w.isScalar = true → Finds s (d.doc w) (d'.doc w)
  outline (b : Bool) (w : Value) : Finds s (d.outline b w) (d'.outline b w)

variable {s : Store} {d d' : Describe} {v w : Value} {n : Node} {b : Bool} {f : Field}

namespace Describe

@[gcongr] theorem finds_text (hd : Deeper s d d') : Finds s (d.text w) (d'.text w) :=
  hd.text w

@[gcongr] theorem finds_quoted (hd : Deeper s d d') : Finds s (d.quoted w) (d'.quoted w) :=
  hd.quoted w

@[gcongr] theorem finds_outline (hd : Deeper s d d') :
    Finds s (d.outline b w) (d'.outline b w) :=
  hd.outline b w

@[gcongr] theorem finds_fieldText (hd : Deeper s d d') :
    Finds s (d.fieldText v f) (d'.fieldText v f) := by
  unfold fieldText
  gcongr

@[gcongr] theorem finds_fieldOutline (hd : Deeper s d d') :
    Finds s (d.fieldOutline b v f) (d'.fieldOutline b v f) := by
  unfold fieldOutline
  gcongr

@[gcongr] theorem finds_joined {separator : String} (hd : Deeper s d d') :
    Finds s (d.joined separator v) (d'.joined separator v) := by
  unfold joined
  gcongr

end Describe

namespace Label

@[gcongr] theorem finds_importSource (hd : Deeper s d d') :
    Finds s (importSource d v) (importSource d' v) := by
  unfold importSource
  gcongr

@[gcongr] theorem finds_decorators (hd : Deeper s d d') :
    Finds s (decorators d v) (decorators d' v) := by
  unfold decorators
  gcongr

@[gcongr] theorem finds_classDecl (hd : Deeper s d d') :
    Finds s (classDecl d v) (classDecl d' v) := by
  dsimp only [classDecl]
  gcongr

theorem finds_yieldStmt (hd : Deeper s d d') : Finds s (yieldStmt d v) (yieldStmt d' v) := by
  unfold yieldStmt
  gcongr with w
  cases w with
  | none => rfl
  | _ => exact .bind (hd.text _) fun _ _ => .refl _

/-- Every rule for labels is a frame around the texts of fields. -/
theorem finds_own {g : Form} {rule : Rule} (hd : Deeper s d d') (hrule : own? g = some rule) :
    Finds s (rule d v) (rule d' v) := by
  cases g <;> cases hrule
  case yieldStmt => exact finds_yieldStmt hd
  case classDeclStmt => exact finds_classDecl hd
  case place | dataType | identifier | literal | literalComplex | listType | tupleType | dictType
      | variableDeclaration | inlineVariableDeclaration | argument | deleteStmt =>
    dsimp only [place, dataType, identifier, literal, complex, elementTypes, dictType,
      declaration, delete]
    gcongr
  case unaryOp | binaryOp | boolBinaryOp | boolUnaryOp | walrusOp | compareOp | typeCastExpr
      | arguments | functionCall | lambdaExpr =>
    dsimp only [unary, binary, boolBinary, boolUnary, walrus, compare, typeCast, arguments, call,
      lambda]
    gcongr
  case forRangeLoopStmt | asyncForRangeLoopStmt | forRangeLoopExpr | asyncForRangeLoopExpr
      | forCountLoopStmt | forCountLoopExpr | caseStmt | switchStmt | gotoStmt | throwStmt
      | withItem | withStmt =>
    dsimp only [rangeLoop, loopVariable, countLoop, caseBranch, switch, goto, throwStmt, withItem,
      withStmt]
    gcongr
  case aliasExpr | importStmt | importExpr | importFromStmt | importFromExpr | subscriptExpr
      | classDefStmt | enumDeclStmt | structDeclStmt =>
    dsimp only [importedName, importNames, importFrom, subscript, classDef, enumDecl, structDecl]
    gcongr
  all_goals
    dsimp only [wrapped, word]
    gcongr

theorem finds_ofNode (hd : Deeper s d d') : Finds s (ofNode d n v) (ofNode d' n v) := by
  unfold ofNode
  cases hrule : n.form.ancestors.findSome? own? with
  | none => rfl
  | some rule =>
    obtain ⟨g, -, hown⟩ := List.exists_of_findSome?_eq_some hrule
    exact finds_own hd hown

end Label

/-! ## Outlines -/

namespace Outline

/-- Whether a field holds nothing but scalars. -/
def ScalarField (s : Store) (v : Value) (f : Field) : Prop :=
  ∀ w, run (field v f) s = .ok w → w.isScalar = true

theorem scalarField_of_kept {h : Hint} (hs : Built s) (hn : s.nodeOf? v = some n)
    (hkept : (f, h) ∈ n.form.kept) (hh : scalarHint h = true) (hc : n.form.computed? f = none) :
    ScalarField s v f :=
  fun _ hw => isScalar_of_meets hh (hs.meets_of_field hn hkept hc hw)

/-- Descriptions that find as much as others in the metadata of a node. -/
def DeeperAt (s : Store) (v : Value) (d d' : Describe) : Prop :=
  Finds s (metadata d v) (metadata d' v)

theorem deeperAt_of_isNode (hs : Built s) (hv : IsNode s b v n) (hd : Deeper s d d') :
    DeeperAt s v d d' := by
  obtain ⟨hloc, hcomment, href, hkind⟩ := (kept_node n.form).resolve_left
    (by simp [hv.isNode, hv.notBare])
  have hplace : ∀ p, run (field v .loc) s = .ok p →
      ScalarField s p .line ∧ ScalarField s p .col := fun p hp => by
    obtain ⟨g, hg, hisA⟩ := Store.isForm_iff.mp
      (hs.meets_of_field hv.node hloc (computed?_eq_none _ (by decide)) hp)
    obtain ⟨place, hplace, rfl⟩ := Option.map_eq_some_iff.mp hg
    obtain ⟨hline, hcol⟩ := (kept_place place.form).resolve_left (by simp [hisA])
    exact ⟨scalarField_of_kept hs hplace hline rfl (computed?_eq_none _ (by decide)),
      scalarField_of_kept hs hplace hcol rfl (computed?_eq_none _ (by decide))⟩
  have hmember : ∀ m, run (field v .kind) s = .ok m → ScalarField s m .value := fun m hm w hw => by
    have hmeets := hs.meets_of_field hv.node hkind (computed?_eq_none _ (by decide)) hm
    cases m with
    | member m =>
      cases hw
      rfl
    | _ => cases hmeets
  refine .bind (.refl _) fun p hp => .bind (.refl _) fun line hline =>
    .bind (hd.doc ((hplace p hp).1 _ hline)) fun _ _ => ?_
  refine .bind (.refl _) fun p hp => .bind (.refl _) fun col hcol =>
    .bind (hd.doc ((hplace p hp).2 _ hcol)) fun _ _ => ?_
  refine .bind (.refl _) fun w hw => .bind (hd.doc
    (scalarField_of_kept hs hv.node hcomment rfl (computed?_eq_none _ (by decide)) _ hw))
      fun _ _ => ?_
  refine .bind (.refl _) fun w hw => .bind (hd.doc
    (scalarField_of_kept hs hv.node href rfl (computed?_eq_none _ (by decide)) _ hw)) fun _ _ => ?_
  exact .bind (.refl _) fun m hm => .bind (.refl _) fun w hw =>
    .bind (hd.doc (hmember m hm w hw)) fun _ _ => .refl _

section Parts

variable {key : String} {fields : List (String × Field)}

@[gcongr] theorem finds_prepare {content : Doc} (hv : DeeperAt s v d d') :
    Finds s (prepare d b v key content) (prepare d' b v key content) :=
  .ite (.refl _) (.bind hv fun _ _ => .refl _)

@[gcongr] theorem finds_label (hd : Deeper s d d') : Finds s (label d v) (label d' v) := by
  refine .bind (.refl _) fun n _ => ?_
  cases n with
  | none => exact hd.text v
  | some n => exact Label.finds_ofNode hd

@[gcongr] theorem finds_part (hd : Deeper s d d') :
    Finds s (part d b v key f) (part d' b v key f) := by
  unfold part
  gcongr

@[gcongr] theorem finds_parts (hd : Deeper s d d') :
    Finds s (parts d b v fields) (parts d' b v fields) := by
  induction fields with
  | nil => rfl
  | cons e rest ih => exact .bind (finds_part hd) fun _ _ => .bind ih fun _ _ => .refl _

@[gcongr] theorem finds_partIfTrue (hd : Deeper s d d') :
    Finds s (partIfTrue d b v key f) (partIfTrue d' b v key f) := by
  unfold partIfTrue
  gcongr

@[gcongr] theorem finds_partsIfTrue (hd : Deeper s d d') :
    Finds s (partsIfTrue d b v fields) (partsIfTrue d' b v fields) := by
  induction fields with
  | nil => rfl
  | cons e rest ih => exact .bind (finds_partIfTrue hd) fun _ _ => .bind ih fun _ _ => .refl _

@[gcongr] theorem finds_partOrEmpty (hd : Deeper s d d') :
    Finds s (partOrEmpty d b v key f) (partOrEmpty d' b v key f) := by
  unfold partOrEmpty
  gcongr with w
  cases w with
  | none => rfl
  | _ => exact .bind (hd.outline b _) fun _ _ => .refl _

@[gcongr] theorem finds_listed (hd : Deeper s d d') : Finds s (listed d b v) (listed d' b v) := by
  unfold listed
  gcongr

end Parts

/-! ## Rules -/

theorem finds_conditional {keys : Bool → Value → Look String} (hd : Deeper s d d')
    (hv : DeeperAt s v d d') : Finds s (conditional keys d b v) (conditional keys d' b v) := by
  unfold conditional
  gcongr with _ _ w
  cases w <;> dsimp only <;> gcongr

theorem finds_caseBranch (hd : Deeper s d d') (hv : DeeperAt s v d d') :
    Finds s (caseBranch d b v) (caseBranch d' b v) := by
  unfold caseBranch
  gcongr with w
  cases w <;> dsimp only <;> gcongr

/-- A key over a scalar field as plain data. -/
theorem finds_shown {key : String} (hd : Deeper s d d') (hv : DeeperAt s v d d')
    (hf : ScalarField s v f) :
    Finds s (do prepare d b v key (← d.doc (← field v f)))
      (do prepare d' b v key (← d'.doc (← field v f))) :=
  .bind (.refl _) fun w hw => .bind (hd.doc (hf w hw)) fun _ _ => finds_prepare hv

theorem finds_complex (hs : Built s) (hn : s.nodeOf? v = some n) (hd : Deeper s d d')
    (hv : DeeperAt s v d d') (hkept : (.value, .pair) ∈ n.form.kept) :
    Finds s (complex d b v) (complex d' b v) := by
  have hpair : ∀ u, run (field v .value) s = .ok u → ∀ i : Int, i = 0 ∨ i = 1 → ∀ w,
      run (item u i) s = .ok w → w.isScalar = true := fun u hu i hi w hw => by
    obtain ⟨x, y, hx, hy, hsx, hsy⟩ := items_of_pair
      (hs.meets_of_field hn hkept (computed?_eq_none _ (by decide)) hu)
    rcases hi with rfl | rfl
    · cases hx.symm.trans hw
      exact hsx
    · cases hy.symm.trans hw
      exact hsy
  dsimp only [complex]
  gcongr with _ _ _ _ u hu w hw _ _ u' hu' w' hw'
  · exact hd.doc (hpair u hu 0 (.inl rfl) w hw)
  · exact hd.doc (hpair u' hu' 1 (.inr rfl) w' hw')

/-- The rules that show no plain data put the outlines of parts together. -/
theorem finds_own {g : Form} {rule : Rule} (hd : Deeper s d d')
    (hv : g ≠ .withItem → DeeperAt s v d d') (hrule : own? g = some rule) (hshown : shown g = [])
    (hcomplex : g ≠ .literalComplex) : Finds s (rule d b v) (rule d' b v) := by
  cases g <;> cases hrule
  case withItem =>
    dsimp only [withItem]
    gcongr
  all_goals replace hv := hv (by decide)
  case literalComplex => exact absurd rfl hcomplex
  case dataType | identifier | literal | literalString | literalUTF8String | literalUTF8Char
      | literalDate | literalTime | literalTimestamp | literalDateTime => cases hshown
  case node | exprType | functionPrototype => rfl
  case ifStmt | ifExpr => exact finds_conditional hd hv
  case caseStmt => exact finds_caseBranch hd hv
  case nodeList | arguments | block | moduleRoot | undefined | deleteStmt | argument | functionCall
      | functionDef | functionAsyncDef | awaitExpr | yieldExpr | yieldStmt | ellipsis =>
    dsimp only [container, blockKey, moduleKey, undefined, delete, argument, call, function,
      underOrEmpty, yieldStmt, bareLabel]
    gcongr
  case variableDeclaration | inlineVariableDeclaration | variableAssignment | parenthesizedExpr
      | functionReturn | yieldFromExpr | lambdaExpr | walrusOp | assignmentExpr | starred
      | typeCastExpr | breakStmt | continueStmt =>
    dsimp only [labelUnder, under, headed, bare]
    gcongr
  case unaryOp | binaryOp | boolBinaryOp | boolUnaryOp | augAssign | compareOp | subscriptExpr =>
    dsimp only [unary, binary, boolean, headed, augAssign, compare, subscript, bound]
    gcongr
  case forRangeLoopStmt | forRangeLoopExpr | forCountLoopStmt | forCountLoopExpr
      | asyncForRangeLoopStmt | asyncForRangeLoopExpr | whileStmt | whileExpr | switchStmt
      | gotoStmt | throwStmt | catchHandlerStmt | exceptionHandlerStmt | finallyHandlerStmt
      | withStmt =>
    dsimp only [loop, spread, asyncLoop, whileLoop, switch, goto, throwStmt, guarded, withStmt]
    gcongr
  case comprehensionClause | comprehension | listComprehension | setComprehension
      | generatorExpr =>
    dsimp only [partIfNodes, clause, comprehension, collected, generator, headed]
    gcongr
  case classDeclStmt | classDefStmt | enumDeclStmt | structDeclStmt | structDefStmt | target
      | package | aliasExpr | importStmt | importExpr | importFromStmt | importFromExpr =>
    dsimp only [classKey, classParts, classDecl, classDef, typeDecl, target, package, importedName,
      importNames, importFrom]
    gcongr

/-- The rules that show a field as plain data. -/
theorem finds_own_shown {g : Form} {rule : Rule} (hd : Deeper s d d') (hv : DeeperAt s v d d')
    (hrule : own? g = some rule) (hshown : ∀ f ∈ shown g, ScalarField s v f)
    (hne : shown g ≠ []) : Finds s (rule d b v) (rule d' b v) := by
  cases g <;> cases hrule
  case dataType => exact .bind (.refl _) fun _ _ => finds_shown hd hv (hshown _ (by decide))
  case identifier =>
    exact .bind (.refl _) fun _ _ => .bind (Describe.finds_fieldText hd) fun _ _ =>
      finds_shown hd hv (hshown _ (by decide))
  case literal =>
    exact .bind (Describe.finds_fieldText hd) fun _ _ => .bind (Describe.finds_fieldText hd)
      fun _ _ => finds_shown hd hv (hshown _ (by decide))
  case literalString | literalUTF8String | literalUTF8Char | literalDate | literalTime
      | literalTimestamp | literalDateTime =>
    exact .bind (Describe.finds_fieldText hd) fun _ _ => finds_shown hd hv (hshown _ (by decide))
  all_goals exact absurd rfl hne

theorem finds_ofNode (hs : Built s) (hd : Deeper s d d') (hn : s.nodeOf? v = some n) :
    Finds s (ofNode d b n v) (ofNode d' b n v) := by
  rcases exists_suited hn with ⟨g, rule, hg, -, hrule, heq⟩ | hnone
  · rw [heq, heq]
    cases hbare : n.form.isBare with
    | true =>
      -- The name is missing, so nothing comes after it.
      obtain ⟨rfl, hlacks⟩ := hg.bare hbare
      cases hrule
      exact fun x h => absurd h (not_run_dataType (not_run_lacksField hs hn hlacks) x)
    | false =>
      have hv : g ≠ .withItem → DeeperAt s v d d' := fun hitem =>
        deeperAt_of_isNode hs ⟨hn, by simpa [hitem] using hg.node, hbare, rfl⟩ hd
      by_cases hcomplex : g = .literalComplex
      · subst hcomplex
        cases hrule
        exact finds_complex hs hn hd (hv (by decide)) (hg.kept _ (by decide))
      by_cases hempty : shown g = []
      · exact finds_own hd hv hrule hempty hcomplex
      refine finds_own_shown hd (hv ?_) hrule (fun f hf => ?_) hempty
      · rintro rfl
        exact hempty rfl
      · rcases hg.scalar f hf hbare with h | ⟨-, h⟩
        · obtain ⟨_, hkept, hh, hc⟩ := exists_of_keepsScalar h
          exact scalarField_of_kept hs hn hkept hh hc
        · exact fun w hw => absurd hw (not_run_lacksField hs hn h w)
  · exact fun x h => absurd h (hnone d b x)

end Outline

/-! ## Steps -/

namespace Describe

variable {display : Display}

@[gcongr] theorem finds_textStep (hd : Deeper s d d') : Finds s (textStep d v) (textStep d' v) := by
  cases v with
  | ref a =>
    refine .bind (.refl _) fun c _ => ?_
    cases c with
    | node n => exact Label.finds_ofNode hd
    | _ => dsimp only; gcongr
  | _ => rfl

theorem finds_outlineStep (hs : Built s) (hd : Deeper s d d') :
    Finds s (outlineStep d b v) (outlineStep d' b v) := by
  refine .bind (.refl _) fun n hn => ?_
  rw [run_node?] at hn
  cases n with
  | none => rfl
  | some n => exact Outline.finds_ofNode hs hd (Except.ok.inj hn)

theorem finds_quotedStep (hs : Built s) (hd : Deeper s d d') :
    Finds s (quotedStep display d v) (quotedStep display d' v) := by
  have hdraw : Finds s (drawStep display d v) (drawStep display d' v) :=
    .ite (.refl _) (.bind (finds_outlineStep hs hd) fun _ _ => .refl _)
  cases v with
  | ref a =>
    refine .bind (.refl _) fun n _ => ?_
    cases n with
    | none => exact finds_textStep hd
    | some n => exact .ite (finds_textStep hd) (.ite (.refl _) hdraw)
  | _ => rfl

/-- Going into a value finds as much if what is done inside does. -/
theorem finds_enter {α : Type} {opened : List Address} {again : Address → String → α}
    {F G : List Address → Look α} (h : ∀ o, Finds s (F o) (G o)) :
    Finds s (enter opened v again F) (enter opened v again G) := by
  cases v with
  | ref a =>
    refine .bind (.refl _) fun c _ => ?_
    cases c with
    | node n => exact h opened
    | _ => exact .ite (.refl _) (h _)
  | _ => exact h opened

theorem deeper_toDepth (hs : Built s) (depth : Nat) (opened : List Address) :
    Deeper s (toDepth display depth opened) (toDepth display (depth + 1) opened) := by
  induction depth generalizing opened with
  | zero =>
    refine ⟨fun _ _ h => ?_, fun _ _ h => ?_, fun _ _ h => ?_, fun _ _ _ h => ?_⟩
    all_goals cases h
  | succ depth ih =>
    refine ⟨fun w => finds_enter fun o => finds_textStep (ih o),
      fun w => finds_enter fun o => finds_quotedStep hs (ih o), fun {w} hw => ?_,
      fun b w => finds_outlineStep hs (ih opened)⟩
    cases w with
    | ref a | member m => cases hw
    | _ => rfl

end Describe

/-- The outline that a step asks for is the outline of the part. -/
theorem run_outline_of_toDepth {x : Doc} (hs : Built s)
    (h : run ((Describe.toDepth plainDisplay s.cells.size []).outline b v) s = .ok x) :
    run (outline b v) s = .ok x :=
  (Describe.deeper_toDepth hs s.cells.size []).outline b v x h

end ProgramTree
