/-
Stores that constructors built.

A store is built if it comes from the store at the start by constructors whose arguments
are as the constructors expect them, and by adding nodes to containers. In such a store
each node holds what its form promises (`Built.get?_of_kept`).
-/
import ProgramTree.Proofs.Constructors

namespace ProgramTree

open Look

variable {form : Form} {given : List (Field × Value)} {s : Store} {f : Field} {v : Value} {n : Node}
  {h : Hint}

namespace Build

/-! ## Accepted arguments -/

/-- The defaults of a constructor are as it expects its arguments. -/
theorem defaults_meet (form : Form) : form.signature.2.all fun p =>
    p.defaultValue.all fun v => (form.expects p.field).all fun h =>
      h.loose.meets Store.initial v := by
  cases form <;> decide +kernel

end Build

/-- Whether a constructor may be called with these arguments. -/
def Store.accepts (s : Store) (form : Form) (rest : List Value) (given : List (Field × Value)) :
    Bool :=
  given.all (fun e => (form.expects e.1).all fun h => h.meets s e.2) &&
    rest.all (s.isForm · .argument)

namespace Build

theorem nodup_fields (form : Form) : (form.signature.2.map Param.field).Nodup := by
  cases form <;> decide

theorem lookup_params {params : List Param} (hnodup : (params.map Param.field).Nodup)
    (g : Param → Value) {p : Param} (hp : p ∈ params) :
    (params.map fun p => (p.field, g p)).lookup p.field = some (g p) := by
  induction params with
  | nil => cases hp
  | cons q rest ih =>
    rw [List.map_cons, List.nodup_cons] at hnodup
    rw [List.map_cons, List.lookup_cons]
    rcases List.mem_cons.mp hp with rfl | hmem
    · simp
    · have hne : p.field ≠ q.field := fun heq => hnodup.1 (heq ▸ List.mem_map_of_mem hmem)
      simp only [beq_eq_false_iff_ne.mpr hne]
      exact ih hnodup.2 hmem

/-- The argument for a parameter: the last one that was given, or else the default. -/
def chosen (given : List (Field × Value)) (p : Param) : Option Value :=
  match given.reverse.lookup p.field with
  | some v => some v
  | none => p.defaultValue

theorem fill_eq (form : Form) (given : List (Field × Value)) :
    Arguments.fill form given =
      match given.find? fun e => !form.signature.2.any fun p => p.field = e.1 with
      | some e => .error (.unexpectedArgument form.signature.1.name e.1.key)
      | none =>
        if (form.signature.2.filter fun p => (chosen given p).isNone).isEmpty then
          .ok (form.signature.2.map fun p => (p.field, (chosen given p).getD .none))
        else .error (.missingArguments form.signature.1.name
          ((form.signature.2.filter fun p => (chosen given p).isNone).map fun p => p.field.key)) :=
  rfl

theorem fill_inv {args : Arguments} (h : Arguments.fill form given = .ok args) :
    (∀ p ∈ form.signature.2, (chosen given p).isNone = false) ∧
      args = form.signature.2.map fun p => (p.field, (chosen given p).getD .none) := by
  rw [fill_eq] at h
  split at h
  · cases h
  · split at h
    · next hmissing =>
      refine ⟨fun p hp => ?_, (Except.ok.inj h).symm⟩
      have hnone := List.filter_eq_nil_iff.mp (List.isEmpty_iff.mp hmissing) p hp
      exact Bool.not_eq_true _ ▸ hnone
    · cases h

/-- Arguments that a constructor is given and its defaults are as it expects them. -/
theorem meets_of_accepts {rest : List Value} {args : Arguments} (hs : Sound .none s)
    (haccepts : s.accepts form rest given = true) (h : Arguments.fill form given = .ok args) :
    Meets s form args := by
  obtain ⟨hsome, rfl⟩ := fill_inv h
  have hparams : ∀ p ∈ form.signature.2, ∃ v, chosen given p = some v ∧
      (form.signature.2.map fun p => (p.field, (chosen given p).getD .none)).lookup p.field =
        some v := by
    intro p hp
    obtain ⟨v, hv⟩ := Option.isSome_iff_exists.mp (Option.isNone_eq_false_iff.mp (hsome p hp))
    refine ⟨v, hv, ?_⟩
    rw [lookup_params (nodup_fields form) _ hp, hv, Option.getD_some]
  have hothers : ∀ f, (∀ p ∈ form.signature.2, p.field ≠ f) →
      (form.signature.2.map fun p => (p.field, (chosen given p).getD .none)).lookup f = none := by
    intro f hf
    refine List.lookup_eq_none_iff.mpr fun e he => ?_
    obtain ⟨p, hp, rfl⟩ := List.mem_map.mp he
    exact bne_iff_ne.mpr (hf p hp).symm
  simp only [Store.accepts, Bool.and_eq_true, List.all_eq_true] at haccepts
  have hgiven : ∀ {f v}, given.reverse.lookup f = some v → ∀ h, form.expects f = some h →
      h.meets s v = true := by
    intro f v hv h hh
    obtain ⟨before, after, heq, -⟩ := List.lookup_eq_some_iff.mp hv
    have hmem : (f, v) ∈ given := List.mem_reverse.mp (by simp [heq])
    have hall := haccepts.1 _ hmem
    rw [hh] at hall
    exact hall
  refine ⟨fun p hp => ?_, fun p hp hnone h hh => ?_, hothers⟩
  · obtain ⟨v, hv, hlookup⟩ := hparams p hp
    refine ⟨v, hlookup, fun h hh => ?_⟩
    rw [chosen] at hv
    split at hv
    · next w hw =>
      cases hv
      exact Hint.meets_loose (hgiven hw h hh)
    · have hdefault := List.all_eq_true.mp (defaults_meet form) p hp
      rw [hv, hh] at hdefault
      exact Hint.meets_extends hs.shared hdefault
  · obtain ⟨v, hv, hlookup⟩ := hparams p hp
    rw [Arguments.get, hlookup]
    rw [chosen] at hv
    split at hv
    · next w hw =>
      cases hv
      exact hgiven hw h hh
    · rw [hnone] at hv
      cases hv

/-- A constructor with arguments as it expects them makes a node as its form promises. -/
theorem construct_sound {s t : Store} {rest : List Value} {a : Address} (hs : Sound .none s)
    (haccepts : s.accepts form rest given = true) (h : construct form rest given s = (.ok a, t)) :
    Sound .none t ∧ s.Extends t ∧ t.formOf? (.ref a) = some form := by
  unfold construct at h
  cases hargs : Arguments.fill form given with
  | error e =>
    rw [hargs] at h
    cases h
  | ok args =>
    rw [hargs] at h
    obtain ⟨b, s₁, hnew, hrest⟩ := andThen_eq_ok.mp h
    cases hnew
    obtain ⟨_, s₂, hfill, hpure⟩ := andThen_eq_ok.mp hrest
    cases hpure
    have hnodes : ∀ v ∈ rest, s.isForm v .node = true := by
      intro v hv
      obtain ⟨g, hg, hisA⟩ := Store.isForm_iff.mp
        (List.all_eq_true.mp (Bool.and_eq_true _ _ ▸ haccepts).2 v hv)
      exact Store.isForm_iff.mpr ⟨g, hg, Form.isA_trans hisA (by decide)⟩
    obtain ⟨hdraft, hext⟩ := fill_sound hs (meets_of_accepts hs haccepts hargs) hnodes hfill
    have hform := hext.forms _ _ (startDraft hs form).2
    exact ⟨finishDraft hs hdraft (covers_filled form) hform,
      (Store.extends_push s _).trans hext, hform⟩

end Build

/-! ## Built stores -/

/-- A store that comes from the store at the start by constructors whose arguments are as
they expect them, and by adding nodes to containers. In between, collections are made of
what is there, nodes get numbers, and cursors move. -/
inductive Built : Store → Prop
  | initial : Built .initial
  | construct {s t : Store} {form : Form} {rest : List Value} {given : List (Field × Value)}
      {a : Address} : Built s → s.accepts form rest given = true →
      Build.construct form rest given s = (.ok a, t) → Built t
  | append {s t : Store} {v x : Value} : Built s → Hint.growing.meets s v = true →
      s.isForm x .node = true → Build.append v x s = (.ok (), t) → Built t
  | collect {s : Store} {c : Cell} : Built s → (∀ n, c ≠ .node n) →
      (∀ b ∈ c.targets, b < s.cells.size) → Built (s.push c)
  | number {s : Store} (a : Address) : Built s → Built (Build.giveNumber a s).2
  | move {s : Store} (m : Move) : Built s → Built (s.applyMove m)

theorem sound_initial : Sound .none .initial := by
  have hall : ∀ i : Fin 21, ∀ c ∈ Store.initial.cell? i,
      (∀ b ∈ c.targets, b < 21 ∧ (i.val ∈ Shared.bodyCells → b ∈ Shared.bodyCells)) ∧
      ∀ n ∈ Store.initial.node? i, n.get? .ops = none ∧
        (∀ e ∈ n.form.kept, (n.get? e.1).any (e.2.loose.meets .initial) = true) ∧
        ∀ f ∈ n.form.telling, f ∉ n.form.kept.map Prod.fst → n.get? f = none := by
    decide +kernel
  have hcell : ∀ {a c}, Store.initial.cell? a = some c → ∃ i : Fin 21, i.val = a ∧
      c ∈ Store.initial.cell? i := by
    intro a c hc
    exact ⟨⟨a, (Array.getElem?_eq_some_iff.mp hc).1⟩, rfl, hc⟩
  have hnode : ∀ {a n}, Store.initial.node? a = some n → n.get? .ops = none ∧
      (∀ e ∈ n.form.kept, (n.get? e.1).any (e.2.loose.meets .initial) = true) ∧
      ∀ f ∈ n.form.telling, f ∉ n.form.kept.map Prod.fst → n.get? f = none := by
    intro a n hn
    obtain ⟨i, rfl, hc⟩ := hcell (Store.node?_eq_some.mp hn)
    exact (hall i _ hc).2 n hn
  refine ⟨fun _ _ => rfl, fun a n hn e he => ?_, fun a c hc b hb => ?_, fun a n w hn hw => ?_,
    fun a b n m w _ hm _ hops => ?_, .refl _, fun a ha => ⟨rfl, fun c hc b hb => ?_⟩,
    fun a n f hn => (hnode hn).2.2 f⟩
  · exact (Option.any_eq_true _ _).mp ((hnode hn).2.1 e (List.mem_filter.mp he).1)
  · obtain ⟨i, rfl, hc⟩ := hcell hc
    exact ((hall i c hc).1 b hb).1
  · rw [(hnode hn).1] at hw
    cases hw
  · rw [(hnode hm).1] at hops
    cases hops
  · obtain ⟨i, rfl, hc⟩ := hcell hc
    exact ((hall i c hc).1 b hb).2 ha

/-- A node gets another number. -/
theorem Sound.number {D : Drafts} (hs : Sound D s) (a : Address) :
    Sound D (Build.giveNumber a s).2 := by
  refine Sound.of_cells (s := s.updateNode a fun n => { n with number := s.numbers + 1 }) ?_ rfl
  rw [Store.updateNode]
  cases hn : s.node? a with
  | none => exact hs
  | some n =>
    have hcell := Store.node?_eq_some.mp hn
    refine hs.update hn rfl (fun _ hw => hw) (fun _ _ => rfl) (hs.typed a n hn)
      (hs.closed a (.node n) hcell) (fun w => hs.signs a n w hn) (fun w => hs.apart a a n n w hn hn)
      (fun b k w _ hk => hs.apart a b n k w hn hk) (fun b k w _ hk => hs.apart b a k n w hk hn)
      (fun hmem => ⟨(hs.body a hmem).1, (hs.body a hmem).2 (.node n) hcell⟩)
      (fun f => hs.lacking a n f hn)

/-- In a built store all nodes are finished. -/
theorem Built.sound (h : Built s) : Sound .none s := by
  induction h with
  | initial => exact sound_initial
  | construct _ haccepts hmake ih => exact (Build.construct_sound ih haccepts hmake).1
  | append _ hv hx happend ih =>
    obtain ⟨t, ht, hsound, -⟩ := Build.append_growing ih hv hx
    rw [ht] at happend
    cases happend
    exact hsound
  | collect _ hc htargets ih =>
    exact ih.push (fun _ _ => rfl) htargets fun n hn => absurd hn (hc n)
  | number a _ ih => exact ih.number a
  | move m _ ih => exact ih.applyMove m

namespace Built

theorem exists_node (hn : s.nodeOf? v = some n) : ∃ a, v = .ref a ∧ s.node? a = some n := by
  cases v with
  | ref a => exact ⟨a, rfl, hn⟩
  | _ => cases hn

/-- In a built store each node holds what its form promises. -/
theorem run_field (hs : Built s) (hn : s.nodeOf? v = some n) (hkept : (f, h) ∈ n.form.kept)
    (hc : n.form.computed? f = none) : ∃ w, run (field v f) s = .ok w ∧ h.meets s w = true := by
  obtain ⟨a, rfl, hnode⟩ := exists_node hn
  obtain ⟨w, hw, hmeets⟩ := hs.sound.get?_of_kept rfl hnode hkept
  exact ⟨w, run_field_of_get? hn hc hw, hmeets⟩

theorem meets_of_field (hs : Built s) (hn : s.nodeOf? v = some n) (hkept : (f, h) ∈ n.form.kept)
    (hc : n.form.computed? f = none) {w : Value} (hw : run (field v f) s = .ok w) :
    h.meets s w = true := by
  obtain ⟨u, hu, hmeets⟩ := hs.run_field hn hkept hc
  cases hu.symm.trans hw
  exact hmeets

/-- A telling field that a form does not promise is missing, and the fault names it. -/
theorem run_field_missing (hs : Built s) (hn : s.nodeOf? v = some n) (hf : f ∈ n.form.telling)
    (hkept : f ∉ n.form.kept.map Prod.fst) (hlent : n.form.lent? f = none)
    (hc : n.form.computed? f = none) :
    run (field v f) s = .error (.noField n.form.name f.key) := by
  obtain ⟨a, rfl, hnode⟩ := exists_node hn
  have hnone : n.get? f = none := hs.sound.lacking a n f hnode hf hkept
  have hcount : f ≠ .tempCount := by
    rintro rfl
    exact absurd (Form.mem_telling hf) (by simp)
  simp [field, computedPath?, plainField, hn, hc, hnone, hlent, hcount, lacks, typeName,
    run_cell (Store.node?_eq_some.mp hnode), Cell.typeName]

/-- In a built store the size is that of the store at the start, or larger. -/
theorem le_size (hs : Built s) : 21 ≤ s.cells.size :=
  hs.sound.shared.size

/-- A field that the form of a node promises. -/
theorem exists_field (hs : Built s) (hv : s.formOf? v = some form) (hkept : (f, h) ∈ form.kept)
    (hc : form.computed? f = none) : ∃ w, run (field v f) s = .ok w ∧ h.meets s w = true := by
  obtain ⟨n, hn, rfl⟩ := Option.map_eq_some_iff.mp hv
  exact hs.run_field hn hkept hc

/-- A field that holds a text. -/
theorem exists_text (hs : Built s) (hv : s.formOf? v = some form) (hkept : (f, .text) ∈ form.kept)
    (hc : form.computed? f = none) : ∃ text, run (field v f) s = .ok (.text text) := by
  obtain ⟨w, hw, hmeets⟩ := hs.exists_field hv hkept hc
  cases w with
  | text text => exact ⟨text, hw⟩
  | _ => cases hmeets

/-- A node of a form of containers has a list of nodes. -/
theorem exists_container (hs : Built s) {w : Value} (hw : s.isForm w .nodeList = true) :
    ∃ l xs, IsContainer s w l xs := by
  have hkept : ∀ f : Form, f.isA .nodeList = true →
      (.nodes, .nodes) ∈ f.kept ∧ f.computed? .nodes = none := by
    intro f
    cases f <;> decide
  obtain ⟨f, hf, hisA⟩ := Store.isForm_iff.mp hw
  obtain ⟨v, hv, hmeets⟩ := hs.exists_field hf (hkept f hisA).1 (hkept f hisA).2
  obtain ⟨l, xs, rfl, hxs, -⟩ := Store.isListOfNodes_iff.mp hmeets
  exact ⟨l, xs, hw, hv, hxs⟩

/-- A field that holds a container. -/
theorem exists_container_field {form g : Form} (hs : Built s) (hv : s.formOf? v = some form)
    (hkept : (f, .node g) ∈ form.kept) (hc : form.computed? f = none)
    (hg : g.isA .nodeList = true) : ∃ w l xs, run (field v f) s = .ok w ∧ IsContainer s w l xs := by
  obtain ⟨w, hw, hmeets⟩ := hs.exists_field hv hkept hc
  obtain ⟨k, hk, hisA⟩ := Store.isForm_iff.mp hmeets
  obtain ⟨l, xs, hcontainer⟩ := hs.exists_container
    (Store.isForm_iff.mpr ⟨k, hk, Form.isA_trans hisA hg⟩)
  exact ⟨w, l, xs, hw, hcontainer⟩

end Built

/-! ## Building step by step -/

theorem exists_of_isOk {α : Type} {x : Except Fault α} (h : x.isOk = true) : ∃ a, x = .ok a := by
  cases x with
  | error e => cases h
  | ok a => exact ⟨a, rfl⟩

/-- Something that is made while a store is built. -/
inductive Making
  /-- A node, by the constructor of its form. -/
  | node (form : Form) (rest : List Value) (given : List (Field × Value))
  /-- A collection of what is there. -/
  | cell (c : Cell)
  /-- One more node in a container. -/
  | child (container item : Value)

namespace Store

/-- The store with one thing more, if it may be made. -/
def make? (s : Store) : Making → Option Store
  | .node form rest given =>
    match s.accepts form rest given, Build.construct form rest given s with
    | true, (.ok _, t) => some t
    | _, _ => none
  | .cell (.node _) => none
  | .cell c => if c.targets.all (· < s.cells.size) then some (s.push c) else none
  | .child v x =>
    match Hint.growing.meets s v && s.isForm x .node, Build.append v x s with
    | true, (.ok (), t) => some t
    | _, _ => none

/-- The store that comes from the store at the start by several steps. -/
def made? (steps : List Making) : Option Store :=
  steps.foldlM make? .initial

end Store

theorem Built.make {s t : Store} {m : Making} (hs : Built s) (h : s.make? m = some t) :
    Built t := by
  cases m with
  | node form rest given =>
    rw [Store.make?] at h
    split at h
    · next haccepts hmake =>
      cases h
      exact hs.construct haccepts hmake
    · cases h
  | cell c =>
    cases c with
    | node n => cases h
    | list xs | tuple xs | set xs | dict es =>
      obtain ⟨htargets, hpush⟩ := Option.ite_none_right_eq_some.mp h
      cases hpush
      exact hs.collect nofun fun b hb => by simpa using List.all_eq_true.mp htargets b hb
  | child v x =>
    rw [Store.make?] at h
    split at h
    · next hgrows happend =>
      cases h
      obtain ⟨hv, hx⟩ := Bool.and_eq_true _ _ ▸ hgrows
      exact hs.append hv hx happend
    · cases h

/-- A store that is made step by step is built. -/
theorem built_of_made {steps : List Making} (h : Store.made? steps = some s) : Built s := by
  have hall : ∀ {start}, Built start → steps.foldlM Store.make? start = some s → Built s := by
    clear h
    induction steps with
    | nil =>
      intro start hs h
      cases h
      exact hs
    | cons m rest ih =>
      intro start hs h
      rw [List.foldlM_cons] at h
      obtain ⟨t, ht, hrest⟩ := Option.bind_eq_some_iff.mp h
      exact ih (hs.make ht) hrest
  exact hall .initial h

end ProgramTree
