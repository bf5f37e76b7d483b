/-
All rules make shaped terms.

A rule looks at fields, asks for the conversions of the values inside, and makes a term around
them; what it asks for is known part by part, and then what it makes is shaped, whichever way it
went (`shaped_own`). A conversion of any depth then is (`shaped_of_toDepth`).
-/
import ProgramTree.Proofs.Built
import ProgramTree.Proofs.Terms.Shape

namespace ProgramTree.Target.Convert

open Look

/-- A look finds no term but one for a loose place. -/
abbrev Loose (s : Store) (x : Look Term) : Prop :=
  Yields s x (Shaped s .loose)

section Rules

variable {s : Store} {visit : Visit} {v : Value}

/-! ## Terms with bodies -/

theorem Filled.statements {body : List Term} (h : Filled s body) :
    ∀ t ∈ body, Shaped s .statement t := h.2

/-- A term that needs nothing but a body is kept if the body is filled. -/
theorem keeps_of_filled {t : Term} {p : Place} {body : List Term}
    (hk : p.keeps t = !body.isEmpty) (h : Filled s body) : p.keeps t = true := by
  rw [hk]
  simpa using h.1

theorem shaped_for {iterable : Term} {body : List Term} {id : Doc} (hb : Filled s body)
    (hi : Shaped s .value iterable) :
    Shaped s .loose (.forLoop (.name id .store) iterable body false) := by
  refine .made rfl (by simp [Place.keeps, hb.1]) ?_
  simp only [Term.parts, List.forall_mem_cons, List.forall_mem_map]
  exact ⟨shaped_store id, hi, hb.2⟩

theorem shaped_try {body handlers finalBody : List Term} (hb : Filled s body)
    (hh : ∀ t ∈ handlers, Shaped s .handler t) (hf : ∀ t ∈ finalBody, Shaped s .statement t) :
    Shaped s .loose (.tryStmt body handlers finalBody) := by
  refine .made rfl (by simp [Place.keeps, hb.1]) ?_
  simp only [Term.parts, List.forall_mem_append, List.forall_mem_map]
  exact ⟨⟨hb.2, hh⟩, hf⟩

theorem shaped_function {name : Doc} {args returns : Term} {body : List Term}
    (ha : Shaped s .parameters args) (hb : Filled s body) (hr : Shaped s .optional returns)
    (isPlaced : Bool) : Shaped s .loose (.functionDef name args body returns isPlaced) ∧
      Shaped s .loose (.asyncFunctionDef name args body returns false) := by
  constructor
  all_goals
    refine .made rfl (by simp [Place.keeps, hb.1]) ?_
    simp only [Term.parts, List.forall_mem_cons, List.forall_mem_append, List.forall_mem_map]
    exact ⟨ha, hb.2, hr, by simp⟩

theorem shaped_assign {targets : List Term} {t : Term} (ht : ∀ x ∈ targets, Shaped s .target x)
    (h : Shaped s .value t) (p : Place) (hp : p.admits (.assign targets t false) = true) :
    Shaped s p (.assign targets t false) := by
  refine .made hp rfl ?_
  simp only [Term.parts, List.forall_mem_append, List.forall_mem_map, List.forall_mem_singleton]
  exact ⟨ht, h⟩

theorem shaped_targets (id : Doc) : ∀ t ∈ [Term.store id], Shaped s .target t := by
  rw [List.forall_mem_singleton]
  exact shaped_store id

theorem shaped_class {name : Doc} {bases body decorators : List Term}
    (hbase : ∀ t ∈ bases, Shaped s .value t) (hb : Filled s body)
    (hd : ∀ t ∈ decorators, Shaped s .value t) :
    Shaped s .loose (.classDef name bases body decorators) := by
  refine .made rfl (by simp [Place.keeps, Term.body?, hb.1]) ?_
  simp only [Term.parts, List.forall_mem_append, List.forall_mem_map]
  exact ⟨⟨hbase, hb.2⟩, hd⟩

theorem shaped_names (id : String) : ∀ t ∈ [Term.load id], Shaped s .value t := by
  rw [List.forall_mem_singleton]
  exact shaped_load _ _ rfl rfl

theorem shaped_importAssignment (word : String) {calls : List Term}
    (h : ∀ t ∈ calls, Shaped s .value t) : Shaped s .loose (importAssignment word calls) := by
  have htuple : Shaped s .loose (.assign [.tuple (((List.range calls.length).map fun i =>
      word ++ toString (i + 1)).map fun id => Term.store (.text id)) .store] (.tuple calls .load)
      false) := by
    refine shaped_assign ?_ (.each rfl rfl rfl h) _ rfl
    rw [List.forall_mem_singleton]
    refine .each rfl rfl rfl fun t ht => ?_
    obtain ⟨id, -, rfl⟩ := List.mem_map.mp ht
    exact shaped_store _
  cases calls with
  | nil => exact htuple
  | cons c rest =>
    cases rest with
    | nil => exact shaped_assign (shaped_targets _) (h c (List.mem_cons_self ..)) _ rfl
    | cons d rest => exact htuple

/-! ## What rules ask for -/

theorem yields_bareParameters (params : List Value) (missing : Option Doc) :
    Yields s (bareParameters params missing) fun ts => ∀ t ∈ ts, Shaped s .parameter t := by
  refine yields_mapM fun p => yields_after fun name => ?_
  cases name with
  | some w => exact yields_after fun _ => yields_pure (.one rfl rfl rfl shaped_absent)
  | none =>
    cases missing with
    | some d => exact yields_pure (.one rfl rfl rfl shaped_absent)
    | none => exact yields_after fun _ => yields_fail _

/-- The names that an assignment binds. -/
theorem yields_boundNames (targets : Value) (i : Nat) (xs : List Value) :
    Yields s (boundNames targets i xs) fun o =>
      ∀ names, o = some names → ∀ t ∈ names, Shaped s .target t := by
  induction xs generalizing i with
  | nil => exact yields_after fun _ => yields_pure fun _ h => by cases h; simp
  | cons x rest ih =>
    refine yields_after fun name => ?_
    cases name with
    | none => exact yields_after fun _ => yields_pure fun _ h => by cases h
    | some w =>
      refine yields_after fun id => (ih (i + 1)).bind fun o ho => yields_pure fun names h => ?_
      obtain ⟨more, hmore, rfl⟩ := Option.map_eq_some_iff.mp h
      rw [List.forall_mem_cons]
      exact ⟨shaped_store id, ho more hmore⟩

theorem yields_importCalls {names : Value} {make : Doc → Term}
    (hmake : ∀ d, Shaped s .value (make d)) :
    Yields s (importCalls names make) fun ts => ∀ t ∈ ts, Shaped s .value t :=
  yields_forEach fun _ => yields_after fun d => yields_after fun _ => yields_pure (hmake d)

theorem shaped_unknownException : Shaped s .optional unknownException := by
  refine shaped_callOf ?_ _ rfl
  rw [List.forall_mem_singleton]
  exact shaped_constant _ _ rfl

theorem shaped_raised {t : Term} (h : Converted s t) : Shaped s .optional (raised t) := by
  cases t with
  | call f args keywords => exact h.shaped _ (by decide)
  | name id c => exact shaped_call (h.shaped _ (by decide)) (by simp) (by simp) _ rfl
  | _ => exact shaped_unknownException

theorem shaped_valueOr (visit : Visit) {missing : Doc} : Loose s (valueOr missing visit v) := by
  refine yields_after fun value => ?_
  cases value with
  | some w => exact yields_after fun _ => yields_pure (shaped_constant _ _ rfl)
  | none => exact yields_pure (shaped_constant _ _ rfl)

variable (hvisit : ∀ w, Yields s (visit w) (Converted s))

include hvisit

theorem yields_visitAll (w : Value) :
    Yields s (visitEach visit w) (∀ t ∈ ·, Converted s t) ∧
      Yields s (visitNodes visit w) (∀ t ∈ ·, Converted s t) :=
  ⟨yields_forEach hvisit, yields_after fun _ => yields_forEach hvisit⟩

/-- A part of a slice is a conversion or missing. -/
theorem yields_slicePart (f : Field) :
    Yields s (slicePart visit v f) fun t => t = .absent ∨ Converted s t := by
  refine yields_after fun value => ?_
  cases value with
  | none => exact yields_pure (.inl rfl)
  | some w =>
    refine yields_after fun isNone => ?_
    cases isNone with
    | true => exact yields_pure (.inl rfl)
    | false => exact (hvisit w).mono fun _ h => .inr h

theorem yields_branch (f : Field) : Yields s (branch visit v f) (Shaped s .value) := by
  refine yields_after fun b => ?_
  cases b with
  | none => exact yields_pure (shaped_constant _ _ rfl)
  | some b =>
    refine yields_after fun n => Yields.ite ?_ (shaped_standIn b .value (.inr rfl))
    exact yields_after fun x => (hvisit x).mono fun _ h => h.shaped _ (by decide)

theorem yields_function (fn : Value) : Yields s (function visit fn) (Shaped s .value) := by
  have hunknown : Shaped s .value unknownFunction := shaped_load _ _ rfl rfl
  refine yields_after fun name => ?_
  cases name with
  | some w => exact yields_after fun _ => yields_pure (shaped_load _ _ rfl rfl)
  | none =>
    cases fn with
    | text t => exact yields_pure (shaped_load _ _ rfl rfl)
    | _ =>
      refine Yields.rescue ((hvisit _).bind fun t ht => ?_) fun _ => yields_pure hunknown
      split
      · exact yields_pure (ht.shaped _ (by decide))
      · exact yields_pure (ht.shaped _ (by decide))
      · exact yields_pure hunknown

theorem yields_callArguments (w : Value) :
    Yields s (callArguments visit w) fun ts => ∀ t ∈ ts, Shaped s .value t := by
  refine yields_after fun args => ?_
  cases args with
  | some args => exact yields_visitEach hvisit args .value (by decide)
  | none => exact yields_pure (by simp)

theorem yields_loopElement : Yields s (loopElement visit v) (Shaped s .value) := by
  refine yields_after fun body => yields_after fun nodes => ?_
  cases nodes with
  | some nodes => exact yields_after fun x => (hvisit x).mono fun _ h => h.shaped _ (by decide)
  | none => exact yields_pure (shaped_load _ _ rfl rfl)

theorem yields_hint : Yields s (hint visit v) (Shaped s .value) := by
  have htype : ∀ w, Yields s (visit w) (Shaped s .value) := fun w =>
    (hvisit w).mono fun _ h => h.shaped _ (by decide)
  have hplain : Yields s (visitTrue visit v .plainType (Term.load "object")) (Shaped s .value) :=
    yields_visitTrue hvisit v .plainType .value (by decide) (shaped_load _ _ rfl rfl)
  refine yields_after fun type => ?_
  cases type with
  | some w =>
    refine (htype w).bind fun t ht => ?_
    dsimp only
    split <;> first | exact yields_pure ht | exact yields_pure (shaped_load _ _ rfl rfl)
  | none =>
    refine hplain.bind fun t ht => ?_
    dsimp only
    split <;> first | exact yields_pure ht | exact yields_pure (shaped_load _ _ rfl rfl)

theorem yields_countEnd (condition : Value) :
    Yields s (countEnd visit condition) (Shaped s .value) := by
  refine yields_after fun comparators => ?_
  cases comparators with
  | some cs => exact yields_after fun x => (hvisit x).mono fun _ h => h.shaped _ (by decide)
  | none => exact yields_pure (shaped_constant _ _ rfl)

theorem yields_exceptionTerm (e : Value) :
    Yields s (exceptionTerm visit e) (Shaped s .optional) := by
  have hraised : Yields s (do return raised (← visit e)) (Shaped s .optional) :=
    (hvisit e).bind fun _ h => yields_pure (shaped_raised h)
  refine yields_after fun fn => ?_
  cases fn with
  | none => exact hraised
  | some fn =>
    refine yields_after fun name => ?_
    cases name with
    | none => exact hraised
    | some w =>
      exact yields_after fun _ => (yields_callArguments hvisit e).bind fun _ hargs =>
        yields_pure (shaped_call (shaped_load _ _ rfl rfl) hargs (by simp) _ rfl)

theorem yields_enumMember (member : Value) :
    Yields s (enumMember visit member) fun ts => ∀ t ∈ ts, Shaped s .statement t := by
  refine yields_after fun isDeclaration => ?_
  cases isDeclaration with
  | true =>
    refine yields_after fun id => yields_pure ?_
    rw [List.forall_mem_singleton]
    exact shaped_assign (shaped_targets id) (shaped_callOf (by simp) _ rfl) _ rfl
  | false =>
    refine (hvisit member).bind fun t ht => yields_pure ?_
    split
    · rw [List.forall_mem_singleton]
      exact ht.shaped _ (by decide)
    · rw [List.forall_mem_singleton]
      exact .one rfl rfl rfl (ht.shaped .value (by decide))
    · simp

/-! ## All rules -/

theorem shaped_dictionary : Loose s (dictionary visit v) := by
  have hvalue : ∀ w, Yields s (visit w) (Shaped s .value) := fun w =>
    (hvisit w).mono fun _ h => h.shaped _ (by decide)
  refine yields_after fun elements => ?_
  cases elements with
  | some w =>
    refine yields_after fun es => (yields_mapM fun e : Value × Value => hvalue e.1).bind
      fun keys hkeys => (yields_mapM fun e : Value × Value => hvalue e.2).bind
      fun values hvalues => yields_pure (.made rfl rfl ?_)
    intro part hpart
    obtain ⟨e, he, hpart⟩ := List.mem_flatMap.mp hpart
    obtain ⟨hkey, hval⟩ := List.of_mem_zip he
    rcases List.mem_cons.mp hpart with rfl | hpart
    · exact hkeys e.1 hkey
    · obtain rfl := List.mem_singleton.mp hpart
      exact hvalues e.2 hval
  | none => exact yields_pure (.atom rfl rfl rfl)

/-- The parameters of a function are the conversion of its list of parameters, with known
places. -/
theorem shaped_functionDef : Loose s (functionDef visit v) := by
  refine yields_requiring (yields_after fun prototype =>
    (yields_visitField hvisit prototype .args).bind fun args ha =>
    (yields_visitTrue hvisit prototype .returnType .optional (by decide) shaped_absent).bind
      fun returns hr => yields_after fun b => (yields_block hvisit b).bind fun body hb =>
    yields_after fun name => ?_)
  refine Yields.bind (P := fun t => placedArguments args = .ok t) (fun t ht => ht) fun t ht =>
    yields_pure (shaped_function ?_ hb hr true).1
  obtain ⟨depth, w, hrun, hs⟩ := ha
  exact .converted hrun hs (.inr (.inr ht)) (.inr rfl) (by simp)

/-- The attributes of a structure, if there are any, make a body. -/
theorem shaped_structDecl : Loose s (structDecl visit v) := by
  have hrest : ∀ body, Filled s body → Loose s (do
      return .classDef (← fieldDoc v .name) [] body [Term.load "dataclass"]) :=
    fun body hb => yields_after fun _ => yields_pure
      (shaped_class (by simp) hb (shaped_names "dataclass"))
  refine yields_requiring ((yields_truthyField? v .attributes).bind fun attributes htrue => ?_)
  cases attributes with
  | none => exact hrest _ filled_pass
  | some attributes =>
    exact (yields_forEach_of_truthy (htrue attributes rfl) fun x =>
      (hvisit x).mono fun _ h => h.shaped .statement (by decide)).bind hrest

/-- A container that has its list of nodes. -/
theorem shaped_nodeList (hn : ∃ w, run (field v .nodes) s = .ok w) :
    Loose s (nodeList visit v) := by
  obtain ⟨w, hw⟩ := hn
  refine yields_known (run_has_of_ok hw) ?_
  rw [if_pos rfl]
  exact (yields_visitNodes hvisit v .statement (by decide)).bind fun _ h =>
    yields_pure (.each rfl rfl rfl h)

theorem shaped_subscript : Loose s (subscript visit v) := by
  have hpart : ∀ f, Yields s (slicePart visit v f) (Shaped s .optional) := fun f =>
    (yields_slicePart hvisit f).mono fun t ht => by
      rcases ht with rfl | ht
      · exact shaped_absent
      · exact ht.shaped _ (by decide)
  refine yields_requiring ((yields_visitField hvisit v .value).bind fun t ht =>
    (yields_slicePart hvisit .index).bind fun index hindex => ?_)
  have ht' : Shaped s .value t := ht.shaped _ (by decide)
  cases index with
  | absent =>
    exact (hpart .lower).bind fun _ hl => (hpart .upper).bind fun _ hu =>
      (hpart .step).bind fun _ hs => yields_pure
        (.two rfl rfl rfl ht' (.three rfl rfl rfl hl hu hs))
  | _ =>
    rcases hindex with hindex | hindex
    · cases hindex
    · exact yields_pure (.two rfl rfl rfl ht' (hindex.shaped .value (by decide)))

theorem shaped_assignment : Loose s (assignment visit v) := by
  have hstand : Loose s (standIn v) := shaped_standIn v .loose (.inl rfl)
  refine yields_after fun targets => ?_
  cases targets with
  | none => exact hstand
  | some targets =>
    refine yields_after fun xs => (yields_boundNames targets 0 xs).bind fun names hnames => ?_
    cases names with
    | none => exact hstand
    | some names =>
      refine yields_after fun value => ?_
      cases value with
      | none => exact hstand
      | some w =>
        exact (hvisit w).bind fun _ ht => yields_pure
          (shaped_assign (hnames names rfl) (ht.shaped _ (by decide)) _ rfl)

theorem shaped_enumDecl : Loose s (enumDecl visit v) := by
  exact yields_requiring (yields_after fun attributes =>
    (yields_forEach (yields_enumMember hvisit)).bind fun parts hparts => yields_after fun _ =>
      yields_pure (shaped_class (shaped_names "Enum") (filled_flatten hparts) (by simp)))

/-- Rules for expressions: first through the rule, to the terms that it makes, and then through
these, to what the rule asked for. -/
theorem shaped_expressions : ∀ rule ∈ [ofOperands (logical .and), ofOperands (logical .or),
    ofOperands (fun l r => negated (logical .and l r)),
    ofOperands (fun l r => negated (logical .or l r)), ofOperands exclusive,
    ofOperands (fun l r => negated (exclusive l r)), negation, binary, unary, compare, walrus,
    ofValue .await, ofValue .starred, ofValue .yieldFrom, ofValue id, ofOptionalValue .giveBack,
    ofOptionalValue .yield, ofOptionalValue (fun t => .expr (.yield t)), dataType, identifier,
    variableUse, textOr "", complex, date, constant .null, collection .list, collection .set,
    collection (fun es => .tuple es .load), typeCast, call, lambda, clause,
    comprehension .listComp, comprehension .setComp, comprehension .generator, conditional,
    rangeLoop false, rangeLoop true, whileLoop, doWhileLoop, importExpr, importFromExpr],
    Loose s (rule visit v) := by
  simp only [List.forall_mem_cons, List.not_mem_nil, IsEmpty.forall_iff, implies_true, and_true]
  dsimp only [Term.load, Term.store, Term.callOf, Term.textConstant, id, ofOperands, logical,
    negated, exclusive, negation, binary, unary, compare, walrus, ofValue, ofOptionalValue,
    dataType, identifier, variableUse, textOr, complex, date, collection, constant, typeCast, call,
    unknownFunction, lambda, clause, comprehension, conditional, oneClause, rangeLoop, endless,
    whileLoop, doWhileLoop, importExpr, importFromExpr]
  with_reducible repeat' first
    | refine And.intro ?_ ?_ | refine yields_requiring ?_ | exact shaped_standIn _ _ (.inl rfl)
    | refine (yields_visitField hvisit _ _).bind fun _ _ => ?_
    | refine (yields_visitTrue hvisit _ _ .optional (by decide) shaped_absent).bind fun _ _ => ?_
    | refine (yields_visitTrue hvisit _ _ .value (by decide) (shaped_constant _ _ rfl)).bind fun
        _ _ => ?_
    | refine (yields_visitAll hvisit _).1.bind fun _ _ => ?_
    | refine (yields_branch hvisit _).bind fun _ _ => ?_
    | refine (yields_function hvisit _).bind fun _ _ => ?_
    | refine (yields_callArguments hvisit _).bind fun _ _ => ?_
    | refine (yields_loopElement hvisit).bind fun _ _ => ?_
    | refine (yields_importCalls fun _ => ?_).bind fun _ _ => ?_
    | refine (yields_forEach (Q := Shaped s .parameter) fun _ => yields_after fun _ =>
        yields_pure (.one rfl rfl rfl shaped_absent)).bind fun _ _ => ?_
    | rw [pure_bind] | refine yields_after fun _ => ?_ | refine yields_pure ?_ | split
  all_goals repeat' first
    | with_reducible refine And.intro ?_ ?_
    | dsimp only [Term.parts]
    | simp only [List.forall_mem_cons, List.forall_mem_append, List.forall_mem_map,
        List.not_mem_nil, IsEmpty.forall_iff, implies_true, and_true, reduceIte, reduceCtorEq]
    | with_reducible assumption | with_reducible exact Converted.bound (by assumption)
    | exact Converted.shaped (by with_reducible assumption) _ (by decide)
    | exact fun t ht => ((by with_reducible assumption : ∀ t ∈ _, Converted s t) t
        ht).shaped _ (by decide)
    | with_reducible refine shaped_importAssignment _ ?_
    | refine Shaped.made rfl rfl ?_

/-- Rules for statements, in the same way. -/
theorem shaped_statements : ∀ rule ∈ [importName, argument, arguments, variableAssignment,
    augmented, inlineDeclaration, declaration, delete, ifStmt, caseStmt, switch, whileStmt,
    doWhileStmt, rangeStmt, countStmt, throwStmt, handler, tryStmt, finallyStmt, importStmt,
    importFrom, prototype, asyncFunctionDef, classDef, moduleRoot, blockStmt],
    Loose s (rule visit v) := by
  simp only [List.forall_mem_cons, List.not_mem_nil, IsEmpty.forall_iff, implies_true, and_true]
  dsimp only [Term.load, Term.store, Term.callOf, negated, importName, argument, arguments,
    variableAssignment, augmented, inlineDeclaration, declaration, delete, ifStmt, caseStmt, switch,
    whileStmt, doWhileStmt, rangeStmt, countStmt, throwStmt, handler, tryStmt, finallyStmt,
    importStmt, importFrom, prototype, asyncFunctionDef, classDef, moduleRoot, blockStmt]
  with_reducible repeat' first
    | refine And.intro ?_ ?_ | refine yields_requiring ?_ | exact shaped_standIn _ _ (.inl rfl)
    | refine (yields_visitField hvisit _ _).bind fun _ _ => ?_
    | refine (yields_visitTrue hvisit _ _ .optional (by decide) shaped_absent).bind fun _ _ => ?_
    | refine (yields_visitAll hvisit _).1.bind fun _ _ => ?_
    | refine (yields_visitAll hvisit _).2.bind fun _ _ => ?_
    | refine (yields_mapM hvisit).bind fun _ _ => ?_
    | refine (yields_block hvisit _).bind fun _ _ => ?_
    | refine (yields_fieldBlock hvisit _ _).bind fun _ _ => ?_
    | refine (yields_bareParameters _ _).bind fun _ _ => ?_
    | refine (yields_hint hvisit).bind fun _ _ => ?_
    | refine (yields_countEnd hvisit _).bind fun _ _ => ?_
    | refine ((yields_exceptionTerm hvisit _).rescue fun _ => yields_pure
        shaped_unknownException).bind fun _ _ => ?_
    | refine (hvisit _).bind fun _ _ => ?_ | rw [pure_bind] | refine yields_after fun _ => ?_
    | refine yields_pure ?_ | split
  all_goals repeat' first
    | with_reducible refine And.intro ?_ ?_
    | dsimp only [Term.parts]
    | simp only [List.forall_mem_cons, List.forall_mem_append, List.forall_mem_map,
        List.not_mem_nil, IsEmpty.forall_iff, implies_true, and_true]
    | with_reducible assumption | with_reducible exact Converted.bound (by assumption)
    | exact Converted.shaped (by with_reducible assumption) _ (by decide)
    | with_reducible exact Filled.statements (by assumption)
    | exact fun t ht => ((by with_reducible assumption : ∀ t ∈ _, Converted s t) t
        ht).shaped _ (by decide)
    | with_reducible refine shaped_for (by assumption) ?_
    | with_reducible refine shaped_try (by assumption) ?_ ?_
    | with_reducible refine shaped_try filled_pass ?_ ?_
    | with_reducible refine (shaped_function ?_ (by assumption) ?_ false).1
    | with_reducible refine (shaped_function ?_ filled_pass ?_ false).1
    | with_reducible refine (shaped_function ?_ (by assumption) ?_ false).2
    | exact absurd (by with_reducible assumption : Term.absent.isTrue = true) (by decide)
    | refine Shaped.made rfl rfl ?_
    | refine Shaped.made rfl (keeps_of_filled rfl (by with_reducible assumption)) ?_
    | refine Shaped.made rfl (by simp [Place.keeps, Term.body?]) ?_

/-- Whatever the rule of a form gives is shaped. -/
theorem shaped_own {g : Form} {m : Method} (hm : own? g = some m)
    (hnodes : g = .nodeList → ∃ w, run (field v .nodes) s = .ok w) : Loose s (m.rule visit v) := by
  cases g <;> cases hm
  case nodeList => exact shaped_nodeList hvisit (hnodes rfl)
  case functionDef => exact shaped_functionDef hvisit
  case structDeclStmt | structDefStmt => exact shaped_structDecl hvisit
  case enumDeclStmt => exact shaped_enumDecl hvisit
  case literalDict => exact shaped_dictionary hvisit
  case subscriptExpr => exact shaped_subscript hvisit
  case assignmentExpr => exact shaped_assignment hvisit
  case int8 | int16 | int32 | int64 | uint8 | uint16 | uint32 | uint64 | uint128 | float16
      | float32 | float64 | complex32 | complex64 | utf8Char | utf8String | date | dateTime | time
      | timestamp | literalDateTime | literalTime | literalTimestamp | literalComplex =>
    exact yields_pure (shaped_load _ _ rfl rfl)
  case literalBoolean | literalInt8 | literalInt16 | literalInt32 | literalInt64 | literalInt128
      | literalUInt8 | literalUInt16 | literalUInt32 | literalUInt64 | literalUInt128
      | literalFloat16 | literalFloat32 | literalFloat64 | literalString =>
    exact shaped_valueOr visit
  case breakStmt | continueStmt | ellipsis => exact yields_pure (.atom rfl rfl rfl)
  case aliasExpr | argument | arguments | variableAssignment | augAssign
      | inlineVariableDeclaration | variableDeclaration | deleteStmt | ifStmt | caseStmt
      | switchStmt | whileStmt | doWhileStmt | forRangeLoopStmt | forCountLoopStmt | throwStmt
      | catchHandlerStmt | exceptionHandlerStmt | finallyHandlerStmt | importStmt | importFromStmt
      | functionPrototype | functionAsyncDef | classDefStmt | moduleRoot | block =>
    exact shaped_statements hvisit _ (by simp)
  all_goals exact shaped_expressions hvisit _ (by simp)

end Rules

/-- Whether all nodes of a form have a field. -/
def holds (form : Form) (f : Field) : Bool :=
  form.kept.any (fun e => e.1 = f) && form.computed? f = none

theorem run_field_of_holds {s : Store} {v : Value} {n : Node} {f : Field} (hs : Built s)
    (hn : s.nodeOf? v = some n) (hf : holds n.form f = true) : ∃ w, run (field v f) s = .ok w := by
  obtain ⟨hkept, hc⟩ := (Bool.and_eq_true _ _).mp hf
  obtain ⟨⟨g, h⟩, hmem, heq⟩ := List.any_eq_true.mp hkept
  obtain rfl : g = f := by simpa using heq
  obtain ⟨w, hw, -⟩ := hs.run_field hn hmem (by simpa using hc)
  exact ⟨w, hw⟩

/-- Forms of containers have lists of nodes. -/
theorem holds_nodes (form : Form) : Form.nodeList ∈ form.ancestors → holds form .nodes = true := by
  cases form <;> decide

/-- Each conversion in a built store is shaped. -/
theorem shaped_of_toDepth {s : Store} (hs : Built s) (depth : Nat) (v : Value) :
    Loose s (toDepth depth v) := by
  induction depth generalizing v with
  | zero => exact yields_fail _
  | succ depth ih =>
    intro t ht
    obtain ⟨n, m, hn, hm, ht, -⟩ := step_eq_ok ht
    obtain ⟨g, hg, hm⟩ := List.exists_of_findSome?_eq_some hm
    refine shaped_own (fun w u hu => ⟨depth, w, hu, ih w u hu⟩) hm ?_ t ht
    rintro rfl
    exact run_field_of_holds hs hn (holds_nodes n.form hg)

end ProgramTree.Target.Convert
