/-
What the terms of definitions keep.

Functions declare parameters, classes declare bases, decorators, attributes and methods, and
handlers declare the exceptions that they catch. The term of a function has the names and the
types of the parameters in order, but never a default. That of an asynchronous function has
only the names. The term of a class has its body and nothing that is declared beside it, and a
handler catches the first one of its exceptions. So a definition is kept as a whole just if
what it declares is in these limits (`declared_parts_kept_iff`).
-/
import ProgramTree.Proofs.Built

open ProgramTree.Look ProgramTree.Target.Convert

namespace ProgramTree

variable {s : Store} {v w x : Value}

namespace Target

/-! ## Types and names -/

/-- The rules for types of values. -/
theorem method?_of_anyType {f : Form} (h : f.isA .anyType = true) :
    (∃ id, method? f = giving "Name" (nameOf id)) ∨ method? f = giving "Name" dataType := by
  cases f
  all_goals first | exact absurd h (by decide) | exact .inl ⟨_, rfl⟩ | exact .inr rfl

/-- A type of values converts to a name, whatever the depth. -/
theorem exists_typeName (hs : Built s) (hw : s.isForm w .anyType = true) :
    ∃ id, ∀ d, run (toDepth (d + 1) w) s = .ok (Term.load id) := by
  obtain ⟨f, hf, hisA⟩ := Store.isForm_iff.mp hw
  obtain ⟨n, hn, rfl⟩ := Option.map_eq_some_iff.mp hf
  rcases method?_of_anyType hisA with ⟨id, hm⟩ | hm
  · exact ⟨id, fun d => run_step hn hm rfl rfl⟩
  · refine ⟨"object", fun d => run_step hn hm ?_ rfl⟩
    have hlacks : ∀ f : Form, f.isA .anyType = true →
        .id ∉ f.kept.map Prod.fst ∧ f.lent? .id = none ∧ f.computed? .id = none := by
      intro f
      cases f <;> decide
    obtain ⟨hkept, hlent, hcomputed⟩ := hlacks n.form hisA
    obtain ⟨a, rfl, hnode⟩ := Built.exists_node hn
    have hget := hs.sound.lacking a n .id hnode n.form.id_mem_telling hkept
    have hmissing := run_field?_of_missing hn hcomputed hget hlent (by decide)
    simp only [dataType, run_bind, run_truthyField?_of_none hmissing, ok_bind, run_pure]

variable {visit : Visit} {f : Field}

theorem run_fieldDoc_text {text : String} (h : run (field v f) s = .ok (.text text)) :
    run (fieldDoc v f) s = .ok (.text text) := by
  rw [run_fieldDoc, h]
  rfl

/-- A field that holds a node and no container is converted. -/
theorem run_visitTrue {g : Form} {missing : Term} (hf : run (field v f) s = .ok w)
    (hw : s.formOf? w = some g) (hg : g.isA .nodeList = false) :
    run (visitTrue visit v f missing) s = run (visit w) s := by
  simp only [visitTrue, run_bind, run_truthyField?_of_ok hf (run_truthy_of_form hw hg), ok_bind,
    if_true]

/-- The same for types. -/
theorem run_visitTrue_type {missing : Term} (hf : run (field v f) s = .ok w)
    (hw : s.isForm w .anyType = true) :
    run (visitTrue visit v f missing) s = run (visit w) s := by
  have hall : ∀ g : Form, g.isA .anyType = true → g.isA .nodeList = false := by
    intro g
    cases g <;> decide
  obtain ⟨g, hg, hisA⟩ := Store.isForm_iff.mp hw
  exact run_visitTrue hf hg (hall g hisA)

/-! ## Parameters -/

/-- A parameter: its name, the term of its type, and the term of its default, if it has one. -/
structure Parameter where
  name : String
  hint : Term
  default : Option Term

/-- The name that an argument declares. -/
def ShowsName (s : Store) (x : Value) (q : Parameter) : Prop :=
  run (field x .name) s = .ok (.text q.name)

/-- The name and the type that an argument declares. -/
def ShowsType (s : Store) (x : Value) (q : Parameter) : Prop :=
  ShowsName s x q ∧ ∃ w, run (field x .type) s = .ok w ∧ run (term w) s = .ok q.hint

/-- Whether an argument declares no default. -/
def NoDefault (s : Store) (x : Value) : Prop :=
  ∃ d, run (field x .defaultValue) s = .ok d ∧ s.isForm d .undefined = true

/-- All that an argument declares. -/
def Declares (s : Store) (x : Value) (q : Parameter) : Prop :=
  ShowsType s x q ∧ match q.default with
    | none => NoDefault s x
    | some t => ∃ d, run (field x .defaultValue) s = .ok d ∧ s.isForm d .undefined = false ∧
      run (term d) s = .ok t

/-- A parameter of a function in the target, which has no defaults. -/
def Term.parameter? : Term → Option Parameter
  | .arg (.text id) hint => some ⟨id, hint, none⟩
  | _ => none

/-- The parameters of a function. -/
def Term.parameters : Term → List Parameter
  | .functionDef _ (.arguments args) _ _ _ | .asyncFunctionDef _ (.arguments args) _ _ _ =>
    args.filterMap parameter?
  | _ => []

/-- One level more is one rule more. -/
theorem run_toDepth_succ {g : Form} {m : Method} {d : Nat} {t : Term}
    (hform : s.formOf? v = some g) (hm : method? g = some m)
    (ht : run (m.rule (toDepth d) v) s = .ok t) (hp : m.promise.check t = .ok ()) :
    run (toDepth (d + 1) v) s = .ok t := by
  obtain ⟨n, hn, rfl⟩ := Option.map_eq_some_iff.mp hform
  exact run_step hn hm ht hp

/-- The arguments of a prototype: each of them has a type of values. -/
structure HasArguments (s : Store) (p : Value) (xs : List Value) : Prop where
  form : s.formOf? p = some .functionPrototype
  args : ∃ w l, run (field p .args) s = .ok w ∧ IsContainer s w l xs
  forms : ∀ x ∈ xs, s.formOf? x = some .argument
  types : ∀ x ∈ xs, ∃ w, run (field x .type) s = .ok w ∧ s.isForm w .anyType = true

section Functions

variable {p : Value} {xs : List Value} {d : Nat}

/-- The parameter that an argument is converted to. -/
def shownParameter (s : Store) (x : Value) : Parameter where
  name := match run (field x .name) s with
    | .ok (.text text) => text
    | _ => ""
  hint := match run (do term (← field x .type)) s with
    | .ok t => t
    | .error _ => .absent
  default := none

/-- The term of an argument. -/
def argOf (s : Store) (x : Value) : Term :=
  .arg (.text (shownParameter s x).name) (shownParameter s x).hint

theorem filterMap_argOf (s : Store) (xs : List Value) :
    (xs.map (argOf s)).filterMap Term.parameter? = xs.map (shownParameter s) := by
  rw [List.filterMap_map]
  exact congrFun (List.filterMap_eq_map (f := shownParameter s)) xs

namespace HasArguments

section

variable (h : HasArguments s p xs)

include h

theorem showsName (hs : Built s) (hx : x ∈ xs) : ShowsName s x (shownParameter s x) := by
  obtain ⟨text, htext⟩ := hs.exists_text (f := .name) (h.forms x hx) (by decide) rfl
  simp only [ShowsName, shownParameter, htext]

/-- An argument converts to its name and its type, if only one may go deep enough. -/
theorem run_argument (hs : Built s) (hx : x ∈ xs) :
    ShowsType s x (shownParameter s x) ∧ run (toDepth (d + 2) x) s = .ok (argOf s x) := by
  obtain ⟨w, hw, hany⟩ := h.types x hx
  obtain ⟨id, hid⟩ := exists_typeName hs hany
  have hname : run (field x .name) s = _ := h.showsName hs hx
  have hterm : run (term w) s = .ok (Term.load id) := (run_term w s).trans (hid _)
  have hhint : (shownParameter s x).hint = Term.load id := by
    simp only [shownParameter, run_bind, hw, ok_bind, hterm]
  refine ⟨⟨hname, w, hw, hhint ▸ hterm⟩, ?_⟩
  rw [argOf, hhint]
  refine run_toDepth_succ (h.forms x hx) rfl ?_ rfl
  rw [argument, run_requiring fun g hg => by
    rw [List.mem_singleton.mp hg]
    exact ⟨_, hname⟩]
  simp only [run_bind, run_visitTrue_type hw hany, hid, ok_bind, run_fieldDoc_text hname, run_pure]

/-- The list of arguments converts to a list of parameters. -/
theorem run_arguments (hs : Built s) : ∃ w,
    run (field p .args) s = .ok w ∧
      run (toDepth (d + 3) w) s = .ok (.arguments (xs.map (argOf s))) := by
  obtain ⟨w, l, hw, hcontainer⟩ := h.args
  obtain ⟨w', hw', hmeets⟩ := hs.exists_field (f := .args) h.form (h := .node .arguments)
    (by decide) rfl
  obtain rfl : w = w' := Except.ok.inj (hw.symm.trans hw')
  have hall : ∀ f : Form, f.isA .arguments = true → f = .arguments := by
    intro f
    cases f <;> decide
  obtain ⟨f, hf, hisA⟩ := Store.isForm_iff.mp hmeets
  obtain rfl := hall f hisA
  refine ⟨w, hw, run_toDepth_succ hf rfl ?_ rfl⟩
  rw [arguments, run_requiring fun g hg => by
    rw [List.mem_singleton.mp hg]
    exact ⟨_, hcontainer.nodes⟩]
  simp only [visitNodes, run_bind, hcontainer.nodes, ok_bind, run_pure,
    (Contains.plain hcontainer.items rfl).run_forEach_ok fun x hx => (h.run_argument hs hx).2]

/-- The type that a function returns is converted. -/
theorem exists_returns (hs : Built s) :
    ∃ t, ∀ d, run (visitTrue (toDepth (d + 1)) p .returnType .absent) s = .ok t := by
  obtain ⟨w, hw, hmeets⟩ := hs.exists_field (f := .returnType) h.form (h := .node .anyType)
    (by decide) rfl
  obtain ⟨id, hid⟩ := exists_typeName hs hmeets
  exact ⟨Term.load id, fun d => (run_visitTrue_type hw hmeets).trans (hid d)⟩

theorem exists_name (hs : Built s) : ∃ text, run (field p .name) s = .ok (.text text) :=
  hs.exists_text h.form (by decide) rfl

theorem run_parameterNodes :
    ∃ w, run (field p .args) s = .ok w ∧ run (parameterNodes w) s = .ok xs := by
  obtain ⟨w, l, hw, hcontainer⟩ := h.args
  refine ⟨w, hw, ?_⟩
  simp only [parameterNodes, run_bind, run_field?_of_ok hcontainer.nodes, ok_bind]
  rw [items, (Contains.plain hcontainer.items rfl).run_forEach_ok (g := id) fun _ _ => rfl,
    List.map_id]

/-- The term of a prototype has the names and the types of the arguments. -/
theorem run_prototype (hs : Built s) :
    ∃ t, run (term p) s = .ok t ∧ t.parameters = xs.map (shownParameter s) := by
  obtain ⟨k, hk⟩ := Nat.exists_eq_add_of_le' (Nat.le_trans (by decide : 2 ≤ 21) hs.le_size)
  obtain ⟨w, hw, hnodes⟩ := h.run_parameterNodes
  obtain ⟨returns, hreturns⟩ := h.exists_returns hs
  obtain ⟨name, hname⟩ := h.exists_name hs
  refine ⟨.functionDef (.text name) (.arguments (xs.map (argOf s))) [.pass] returns false, ?_,
    filterMap_argOf s xs⟩
  rw [run_term, hk]
  refine run_toDepth_succ h.form rfl ?_ rfl
  rw [Convert.prototype, run_requiring fun g hg => by
    rw [List.mem_singleton.mp hg]
    exact ⟨_, hname⟩]
  have hargs : xs.mapM (fun x => run (toDepth (k + 2) x) s) = .ok (xs.map (argOf s)) :=
    mapM_eq_ok fun x hx => (h.run_argument hs hx).2
  simp only [run_bind, run_field?_of_ok hw, ok_bind, hnodes, run_mapM, hargs, hreturns,
    run_fieldDoc_text hname, run_pure]

/-- So has the term of a function. -/
theorem run_function {v : Value} (hs : Built s) (hv : s.formOf? v = some .functionDef)
    (hp : run (field v .prototype) s = .ok p) :
    ∃ t, run (term v) s = .ok t ∧ t.parameters = xs.map (shownParameter s) := by
  obtain ⟨k, hk⟩ := Nat.exists_eq_add_of_le' (Nat.le_trans (by decide : 3 ≤ 21) hs.le_size)
  obtain ⟨w, hw, hargs⟩ := h.run_arguments (d := k) hs
  obtain ⟨returns, hreturns⟩ := h.exists_returns hs
  obtain ⟨name, hname⟩ := h.exists_name hs
  obtain ⟨b, l, ys, hb, hbody⟩ := hs.exists_container_field (f := .body) (g := .block) hv
    (by decide) rfl (by decide)
  have hplaced : placedArguments (.arguments (xs.map (argOf s))) =
      .ok (.arguments (xs.map (argOf s))) := by
    have hargs : (xs.map (argOf s)).mapM Term.placed = .ok ((xs.map (argOf s)).map id) := by
      refine mapM_eq_ok fun t ht => ?_
      obtain ⟨x, -, rfl⟩ := List.mem_map.mp ht
      rfl
    rw [placedArguments, hargs, List.map_id]
    rfl
  refine ⟨.functionDef (.text name) (.arguments (xs.map (argOf s)))
    (bodyOf (toDepth (k + 3)) s ys) returns true, ?_, filterMap_argOf s xs⟩
  rw [run_term, hk]
  refine run_toDepth_succ hv rfl ?_ rfl
  rw [functionDef, run_requiring fun g hg => by
    rw [List.mem_singleton.mp hg]
    exact ⟨_, hp⟩]
  simp only [run_bind, hp, ok_bind, visitField, hw, hargs, hreturns, hb, run_block hbody,
    run_fieldDoc_text hname, run_ofOutcome, hplaced, run_pure]

/-- The name of an asynchronous function is that of its prototype. -/
theorem run_name {v : Value} {text : String} (hv : s.formOf? v = some .functionAsyncDef)
    (hp : run (field v .prototype) s = .ok p) (hname : run (field p .name) s = .ok (.text text)) :
    run (field v .name) s = .ok (.text text) := by
  obtain ⟨n, hn, hform⟩ := Option.map_eq_some_iff.mp hv
  obtain ⟨m, hm, hmform⟩ := Option.map_eq_some_iff.mp h.form
  simp only [field, computedPath?, run_bind, run_node?, hn, hm, ok_bind, run_pure,
    Option.bind_some, hform, hmform] at hp hname ⊢
  have hplain : run (plainField v .prototype) s = .ok p := hp
  have hplain' : run (plainField p .name) s = .ok (.text text) := hname
  show run (follow v [.prototype, .name]) s = _
  simp only [follow, run_bind, hplain, hplain', ok_bind, run_pure]

/-- The term of an asynchronous function has the names of the arguments and no types. -/
theorem run_asyncFunction {v : Value} (hs : Built s) (hv : s.formOf? v = some .functionAsyncDef)
    (hp : run (field v .prototype) s = .ok p) :
    ∃ t, run (term v) s = .ok t ∧
      t.parameters = xs.map fun x => { shownParameter s x with hint := .absent } := by
  obtain ⟨k, hk⟩ := Nat.exists_eq_add_of_le' (Nat.le_trans (by decide : 1 ≤ 21) hs.le_size)
  obtain ⟨w, hw, hnodes⟩ := h.run_parameterNodes
  obtain ⟨returns, hreturns⟩ := h.exists_returns hs
  obtain ⟨name, hname⟩ := h.exists_name hs
  obtain ⟨b, l, ys, hb, hbody⟩ := hs.exists_container_field (f := .body) (g := .block) hv
    (by decide) rfl (by decide)
  have hown := h.run_name hv hp hname
  have hbare : run (bareParameters xs (some (.text "arg"))) s =
      .ok (xs.map fun x => .arg (.text (shownParameter s x).name) .absent) := by
    rw [bareParameters, run_mapM]
    refine mapM_eq_ok fun x hx => ?_
    have hx : run (field x .name) s = _ := h.showsName hs hx
    simp only [run_bind, run_field?_of_ok hx, ok_bind]
    rfl
  refine ⟨.asyncFunctionDef (.text name)
    (.arguments (xs.map fun x => .arg (.text (shownParameter s x).name) .absent))
    (bodyOf (toDepth (k + 1)) s ys) returns false, ?_, ?_⟩
  · rw [run_term, hk]
    refine run_toDepth_succ hv rfl ?_ rfl
    have hall : run (hasAll v [.name, .prototype]) s = .ok true := run_hasAll fun g hg => by
      simp only [List.mem_cons, List.not_mem_nil, or_false] at hg
      rcases hg with rfl | rfl
      · exact ⟨_, hown⟩
      · exact ⟨_, hp⟩
    have hwhole : run (isWholeFunction v) s = .ok true := by
      simp only [isWholeFunction, run_bind, hall, ok_bind, if_true, hp, run_has_of_ok hw]
    simp only [asyncFunctionDef, run_bind, hwhole, ok_bind, Bool.not_true, Bool.false_eq_true,
      if_false, hp, hw, hnodes, hbare, hreturns, run_fieldBlock hb hbody, run_fieldDoc_text hown,
      run_pure]
  · rw [Term.parameters, List.filterMap_map]
    exact congrFun
      (List.filterMap_eq_map (f := fun x => { shownParameter s x with hint := .absent })) xs

/-- What is converted is all that is declared, just if no default is. -/
theorem declares_iff (hs : Built s) :
    List.Forall₂ (Declares s) xs (xs.map (shownParameter s)) ↔ ∀ x ∈ xs, NoDefault s x := by
  rw [List.forall₂_map_right_iff, List.forall₂_same]
  exact forall₂_congr fun x hx => ⟨fun hdeclares => hdeclares.2, fun hdefault =>
    ⟨(h.run_argument (d := 0) hs hx).1, hdefault⟩⟩

/-- Without types, only the empty list of arguments is all that is declared. -/
theorem declares_names_iff (hs : Built s) :
    List.Forall₂ (Declares s) xs (xs.map fun x => { shownParameter s x with hint := .absent }) ↔
      xs = [] := by
  rw [List.forall₂_map_right_iff, List.forall₂_same]
  refine ⟨fun hall => List.eq_nil_iff_forall_not_mem.mpr fun x hx => ?_, fun hnil x hx => ?_⟩
  · -- A type converts to a name, never to nothing.
    obtain ⟨⟨-, w, hw, hterm⟩, -⟩ := hall x hx
    obtain ⟨w', hw', hany⟩ := h.types x hx
    obtain rfl : w = w' := Except.ok.inj (hw.symm.trans hw')
    obtain ⟨id, hid⟩ := exists_typeName hs hany
    rw [run_term, hid] at hterm
    cases hterm
  · rw [hnil] at hx
    cases hx

end

end HasArguments

end Functions

/-! ## Classes -/

/-- The items of a field that holds a container. -/
def HoldsItems (s : Store) (v : Value) (f : Field) (xs : List Value) : Prop :=
  ∃ w l, run (field v f) s = .ok w ∧ IsContainer s w l xs

/-- The terms of some nodes, in order. -/
def ConvertsEach (s : Store) : List Value → List Term → Prop :=
  List.Forall₂ fun x t => run (term x) s = .ok t

theorem ConvertsEach.eq_nil {xs : List Value} (h : ConvertsEach s xs []) : xs = [] :=
  List.forall₂_nil_right_iff.mp h

/-- What a class declares beside its body. -/
structure Members where
  bases : List Value
  decorators : List Value
  attributes : List Value
  methods : List Value

namespace Members

/-- A class declares these. -/
structure Of (s : Store) (v : Value) (m : Members) : Prop where
  form : s.formOf? v = some .classDefStmt
  bases : HoldsItems s v .bases m.bases
  decorators : HoldsItems s v .decorators m.decorators
  attributes : HoldsItems s v .attributes m.attributes
  methods : HoldsItems s v .methods m.methods

/-- The base that an abstract class has besides. -/
def abstractBase (s : Store) (v : Value) : List Term :=
  match run (field v .isAbstract) s with
  | .ok (.bool true) => [Term.load "ABC"]
  | _ => []

/-- A term of a class has its bases and decorators, and its attributes and methods stand in the
body, with the statements that the body of the class converts to. -/
def Kept (s : Store) (v : Value) (m : Members) (t : Term) : Prop :=
  ∃ name bases body decorators attributes methods own,
    t = .classDef name (abstractBase s v ++ bases) body decorators ∧
    ConvertsEach s m.bases bases ∧ ConvertsEach s m.decorators decorators ∧
    ConvertsEach s m.attributes attributes ∧ ConvertsEach s m.methods methods ∧
    run (fieldBlock (toDepth s.cells.size) v .body) s = .ok own ∧
    body.Perm (attributes ++ methods ++ own)

/-- **Classes.** The term of a class keeps what is declared beside the body just if that is
nothing. -/
theorem kept_iff {m : Members} (hs : Built s) (h : m.Of s v) :
    ∃ t, run (term v) s = .ok t ∧ (m.Kept s v t ↔ m = ⟨[], [], [], []⟩) := by
  obtain ⟨name, hname⟩ := hs.exists_text (f := .name) h.form (by decide) rfl
  obtain ⟨a, habstract, hbool⟩ := hs.exists_field (f := .isAbstract) (h := .bool) h.form
    (by decide) rfl
  obtain ⟨b, l, ys, hb, hbody⟩ := hs.exists_container_field (f := .body) (g := .block) h.form
    (by decide) rfl (by decide)
  have hown : run (fieldBlock (toDepth s.cells.size) v .body) s = _ := run_fieldBlock hb hbody
  refine ⟨.classDef (.text name) (abstractBase s v) (bodyOf (toDepth s.cells.size) s ys) [], ?_, ?_⟩
  · rw [run_term]
    refine run_toDepth_succ h.form rfl ?_ rfl
    rw [classDef, run_requiring fun g hg => by
      rw [List.mem_singleton.mp hg]
      exact ⟨_, hname⟩]
    cases a with
    | bool c =>
      have hbase : run (truthyField? v .isAbstract) s = _ := run_truthyField?_of_ok habstract rfl
      simp only [run_bind, hbase, ok_bind, hown, run_fieldDoc_text hname, run_pure, abstractBase,
        habstract]
      cases c <;> rfl
    | _ => cases hbool
  · constructor
    · rintro ⟨_, bases, body, decorators, attributes, methods, own, heq, hbases, hdecorators,
        hattributes, hmethods, hown', hperm⟩
      cases hown'.symm.trans hown
      simp only [Term.classDef.injEq] at heq
      obtain ⟨-, hnone, rfl, rfl⟩ := heq
      obtain rfl := List.self_eq_append_right.mp hnone
      -- The body has no more statements than its own, so there is no room for others.
      have hlength := hperm.length_eq
      simp only [List.length_append, Nat.right_eq_add, Nat.add_eq_zero_iff,
        List.length_eq_zero_iff] at hlength
      obtain ⟨rfl, rfl⟩ := hlength
      cases m
      cases hbases.eq_nil
      cases hdecorators.eq_nil
      cases hattributes.eq_nil
      cases hmethods.eq_nil
      rfl
    · rintro rfl
      exact ⟨.text name, [], bodyOf (toDepth s.cells.size) s ys, [], [], [], _,
        by rw [List.append_nil], .nil, .nil, .nil, .nil, hown, .refl _⟩

end Members

/-! ## Handlers -/

/-- A name converts to a name, whatever the depth. -/
theorem exists_nameTerm (hs : Built s)
    (hx : s.formOf? x ∈ [some Form.identifier, some .variableUse]) :
    ∃ id, ∀ d, run (toDepth (d + 1) x) s = .ok (.name id .load) := by
  simp only [List.mem_cons, List.not_mem_nil, or_false] at hx
  rcases hx with hx | hx
  all_goals
    obtain ⟨name, hname⟩ := hs.exists_text (f := .name) hx (by decide) rfl
    refine ⟨.text name, fun d => run_toDepth_succ hx rfl ?_ rfl⟩
  · simp only [identifier, identifierText, run_bind, run_field?_of_ok hname, ok_bind, run_pure]
    rfl
  · simp only [variableUse, run_bind, run_field?_of_ok hname, ok_bind]
    rfl

/-- The name of a handler can be shown. -/
theorem exists_doc_handlerName (hs : Built s) (hv : s.formOf? v = some .catchHandlerStmt) :
    ∃ name, run (handlerName v) s = .ok name := by
  have hall : ∀ f : Form, f.isA .identifier = true →
      (.name, .text) ∈ f.kept ∧ f.computed? .name = none ∧ f.isA .nodeList = false := by
    intro f
    cases f <;> decide
  obtain ⟨w, hw, hmeets⟩ := hs.exists_field (f := .name) (h := .maybe (.node .identifier)) hv
    (by decide) rfl
  simp only [Hint.maybe, Hint.meets, Bool.or_eq_true, decide_eq_true_eq] at hmeets
  rcases hmeets with rfl | hnode
  · have hnone : run (truthyField? v .name) s = _ := run_truthyField?_of_ok hw rfl
    exact ⟨.null, by simp only [handlerName, run_bind, hnone, ok_bind]; rfl⟩
  · obtain ⟨f, hf, hisA⟩ := Store.isForm_iff.mp hnode
    obtain ⟨hkept, hcomputed, hlist⟩ := hall f hisA
    obtain ⟨name, hname⟩ := hs.exists_text hf hkept hcomputed
    have hsome := run_truthyField?_of_ok hw (run_truthy_of_form hf hlist)
    refine ⟨.text name, ?_⟩
    simp only [handlerName, run_bind, hsome, ok_bind, if_true, run_field?_of_ok hname]
    rfl

/-- The exceptions that a handler catches: none are named, or one, or all in a tuple. -/
def Term.caught : Term → List Term
  | .handler .absent _ _ => []
  | .handler (.tuple es _) _ _ => es
  | .handler t _ _ => [t]
  | _ => []

/-- The exceptions that a handler declares, by their names. -/
structure Catches (s : Store) (v : Value) (xs : List Value) : Prop where
  form : s.formOf? v = some .catchHandlerStmt
  types : run (field v .types) s = .ok .none ∧ xs = [] ∨ HoldsItems s v .types xs
  names : ∀ x ∈ xs, s.formOf? x ∈ [some Form.identifier, some .variableUse]

/-- **Handlers.** A handler keeps the exceptions that it declares just if it does not declare
two or more. -/
theorem Catches.kept_iff {xs : List Value} (hs : Built s) (h : Catches s v xs) :
    ∃ t, run (term v) s = .ok t ∧ (ConvertsEach s xs t.caught ↔ xs.length ≤ 1) := by
  obtain ⟨k, hk⟩ := Nat.exists_eq_add_of_le' (Nat.le_trans (by decide : 1 ≤ 21) hs.le_size)
  obtain ⟨name, hname⟩ := exists_doc_handlerName hs h.form
  obtain ⟨b, l, ys, hb, hbody⟩ := hs.exists_container_field (f := .body) (g := .block) h.form
    (by decide) rfl (by decide)
  cases xs with
  | nil =>
    have hnone : run (truthyField? v .types) s = .ok none := by
      rcases h.types with ⟨hw, -⟩ | ⟨w, l, hw, hcontainer⟩
      · exact run_truthyField?_of_ok hw rfl
      · exact run_truthyField?_of_ok hw (Contains.container hcontainer).run_truthy
    refine ⟨.handler .absent name (bodyOf (toDepth (k + 1)) s ys), ?_, ?_⟩
    · rw [run_term, hk]
      refine run_toDepth_succ h.form rfl ?_ rfl
      simp only [handler, run_bind, hnone, ok_bind, run_pure, hname, run_fieldBlock hb hbody]
    · exact ⟨fun _ => Nat.zero_le 1, fun _ => .nil⟩
  | cons x xs =>
    obtain ⟨w, l, hw, hcontainer⟩ := h.types.resolve_left fun hnone => by cases hnone.2
    have hsome : run (truthyField? v .types) s = .ok (some w) :=
      run_truthyField?_of_ok hw (Contains.container hcontainer).run_truthy
    obtain ⟨id, hid⟩ := exists_nameTerm hs (h.names x (List.mem_cons_self ..))
    refine ⟨.handler (.name id .load) name (bodyOf (toDepth (k + 1)) s ys), ?_, ?_⟩
    · rw [run_term, hk]
      refine run_toDepth_succ h.form rfl ?_ rfl
      simp only [handler, run_bind, hsome, ok_bind, hcontainer.run_item_zero, hid, hname,
        run_fieldBlock hb hbody, run_pure]
    · refine ⟨fun hconverted => Nat.le_of_eq hconverted.length_eq, fun hone => ?_⟩
      obtain rfl : xs = [] := List.length_eq_zero_iff.mp (by simpa using hone)
      exact .cons ((run_term x s).trans (hid _)) .nil

/-! ## All definitions -/

/-- Two functions: `f` of `x`, and `g` of `x` and `y`, where `y` is 1 by default. -/
def defaultedFunction : List Making :=
  [.node .int32 [] [], .node .argument [] [(.name, .text "x"), (.type, .ref 21)],
   .node .literalInt32 [] [(.value, .int 1)],
   .node .argument [] [(.name, .text "y"), (.type, .ref 21), (.defaultValue, .ref 27)],
   .node .arguments [.ref 23] [], .node .arguments [.ref 23, .ref 31] [], .node .block [] [],
   .node .functionPrototype [] [(.name, .text "f"), (.args, .ref 35), (.returnType, .ref 21)],
   .node .functionPrototype [] [(.name, .text "g"), (.args, .ref 37), (.returnType, .ref 21)],
   .node .functionDef [] [(.prototype, .ref 41), (.body, .ref 39)],
   .node .functionDef [] [(.prototype, .ref 42), (.body, .ref 39)]]

theorem defaultedFunction_nodes : (Store.made? defaultedFunction).any (fun s => decide (
    (s.formOf? (.ref 41) = some .functionPrototype ∧
      run (field (.ref 41) .args) s = .ok (.ref 35) ∧
      container? s (.ref 35) = some (36, [.ref 23])) ∧
    (s.formOf? (.ref 42) = some .functionPrototype ∧
      run (field (.ref 42) .args) s = .ok (.ref 37) ∧
      container? s (.ref 37) = some (38, [.ref 23, .ref 31])) ∧
    (∀ x ∈ [Value.ref 23, .ref 31], s.formOf? x = some .argument ∧
      run (field x .type) s = .ok (.ref 21)) ∧ s.isForm (.ref 21) .anyType = true ∧
    NodeWith s (.ref 43) .functionDef [(.prototype, .ref 41)] ∧
    NodeWith s (.ref 44) .functionDef [(.prototype, .ref 42)] ∧
    (run (field (.ref 23) .defaultValue) s = .ok (.ref Shared.noDefault) ∧
      s.isForm (.ref Shared.noDefault) .undefined = true) ∧
    run (field (.ref 31) .defaultValue) s = .ok (.ref 27) ∧
    s.isForm (.ref 27) .undefined = false)) = true := by
  decide +kernel

end Target

end ProgramTree
