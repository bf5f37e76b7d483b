/-
Stores that look alike.

Two trees in two stores look alike if they have the same shape: nodes of the same forms with the
same things in their fields, and collections with the same items, one by one. What is incidental
is left out of the comparison (`Form.incidental`): where nodes stand, what is noted beside them and
how declarations may be used; and the names of nodes that got them by themselves, as types and
expressions do. What counts as a name is a name that the constructor was given.

Which cell stands for which one is a relation between addresses, and it is a likeness (`Likeness`)
if cells that stand for each other hold values that do. Fields that are not incidental are read
alike.
-/
import ProgramTree.Proofs.Built
import ProgramTree.Proofs.Core.Mirrors

namespace ProgramTree

/-- Whether nodes of a form have a name that was given to their constructor. -/
def Form.isNamed (g : Form) : Bool :=
  g.signature.2.any (fun p => p.field = .name) && !g.isA .nodeList

/-- Where a node stands, what is noted beside it and how its declaration may be used. -/
def Field.isAside (f : Field) : Bool :=
  [.loc, .comment, .ref, .parent, .position, .mutability, .visibility, .scope].contains f

/-- What says nothing about the program that a node stands for. -/
def Form.incidental (g : Form) (f : Field) : Bool :=
  f.isAside || f = .name && !g.isNamed

/-- Two values of which the second one stands for the first one. -/
inductive Value.Pair (R : Address → Address → Prop) : Value → Value → Prop
  | plain {v : Value} (h : ∀ a, v ≠ .ref a) : Pair R v v
  | cell {a b : Address} (h : R a b) : Pair R (.ref a) (.ref b)

/-- Cells that stand for each other are alike, and what forms lend stands for itself. -/
structure Likeness (s s' : Store) (R : Address → Address → Prop) : Prop where
  cells {a b : Address} : R a b → ∃ c d, s.cell? a = some c ∧ s'.cell? b = some d ∧
    c.Alike Form.incidental (Value.Pair R) d
  lent {g : Form} {f : Field} {a : Address} : g.lent? f = some (.ref a) → R a a

/-- Whether a field is incidental in no form, and the same in all stores. -/
def Field.isPlain (f : Field) : Bool :=
  !f.isAside && f != .name && f != .tempCount

/-- A field that is not incidental: of any node, or the name of a node that has one. The name of an
asynchronous function is that of its prototype. -/
inductive Essential (s : Store) : Value → Field → Prop
  | plain {v : Value} {f : Field} (h : f.isPlain = true) : Essential s v f
  | name {v : Value} {g : Form} (hv : s.formOf? v = some g) (hg : g.isNamed = true) :
      Essential s v .name
  | computed {v w : Value} {g : Form} (hv : s.formOf? v = some .functionAsyncDef)
      (hw : Look.run (Look.field v .prototype) s = .ok w) (hg : s.formOf? w = some g)
      (hnamed : g.isNamed = true) : Essential s v .name

/-- Two outcomes that agree: both are good, or both are the same fault. -/
inductive Concur {α β : Type} (S : α → β → Prop) : Except Fault α → Except Fault β → Prop
  | ok {a : α} {b : β} (h : S a b) : Concur S (.ok a) (.ok b)
  | error (e : Fault) : Concur S (.error e) (.error e)

theorem Concur.bind {α β γ δ : Type} {S : α → β → Prop} {T : γ → δ → Prop} {x : Except Fault α}
    {y : Except Fault β} {f : α → Except Fault γ} {g : β → Except Fault δ} (h : Concur S x y)
    (hfg : ∀ a b, x = .ok a → S a b → Concur T (f a) (g b)) : Concur T (x.bind f) (y.bind g) := by
  cases h with
  | ok hab => exact hfg _ _ rfl hab
  | error e => exact .error e

namespace Likeness

open Look

variable {s s' : Store} {R : Address → Address → Prop} {v v' w : Value} {f : Field} {g : Form}

/-- The second value of a pair is determined by the first one, if that is no cell. -/
theorem pair_eq (h : Value.Pair R v v') (hv : ∀ a, v ≠ .ref a) : v' = v := by
  cases h with
  | plain _ => rfl
  | cell _ => exact absurd rfl (hv _)

theorem not_incidental (hf : f.isPlain = true) (g : Form) : g.incidental f = false := by
  simp only [Field.isPlain, Bool.and_eq_true, Bool.not_eq_true', bne_iff_ne] at hf
  simp [Form.incidental, hf.1.1, hf.1.2]

theorem named_computed (g : Form) (h : g.isNamed = true) :
    g.computed? .name = none ∧ g.incidental .name = false := by
  revert h
  cases g <;> decide

variable (hR : Likeness s s' R)

include hR

theorem pair_lent (h : g.lent? f = some w) : Value.Pair R w w := by
  cases w with
  | ref a => exact .cell (hR.lent h)
  | _ => exact .plain (by simp)

section

variable (h : Value.Pair R v v')

include h

theorem run_typeName : run (typeName v') s' = run (typeName v) s := by
  cases h with
  | plain hv =>
    cases v with
    | ref a => exact absurd rfl (hv a)
    | _ => rfl
  | cell hab =>
    obtain ⟨c, d, hc, hd, halike⟩ := hR.cells hab
    simp only [typeName, run_bind, run_cell hc, run_cell hd, ok_bind, run_pure]
    cases halike with
    | node hnm => rw [Cell.typeName, Cell.typeName, hnm.form]
    | _ => rfl

theorem concur_lacks {S : Value → Value → Prop} (key : String) :
    Concur S (run (lacks v key) s) (run (lacks v' key) s') := by
  simp only [lacks, run_bind, hR.run_typeName h]
  cases run (typeName v) s with
  | ok t => exact .error _
  | error e => exact .error e

/-- Nodes of one form, or no nodes. -/
theorem rel_nodeOf? :
    Option.Rel (Node.Alike Form.incidental (Value.Pair R)) (s.nodeOf? v) (s'.nodeOf? v') := by
  cases h with
  | plain hv =>
    cases v with
    | ref a => exact absurd rfl (hv a)
    | _ => exact .none
  | cell hab =>
    obtain ⟨c, d, hc, hd, halike⟩ := hR.cells hab
    simp only [Store.nodeOf?, Store.node?, hc, hd]
    cases halike with
    | node hnm => exact .some hnm
    | list _ | tuple _ | set _ | dict _ => exact .none

theorem formOf?_eq : s'.formOf? v' = s.formOf? v := by
  have hrel := hR.rel_nodeOf? h
  rw [Store.formOf?, Store.formOf?]
  generalize s.nodeOf? v = o, s'.nodeOf? v' = o' at hrel
  cases hrel with
  | none => rfl
  | some hnm => exact congrArg some hnm.form

theorem concur_plainField (hcount : f ≠ .tempCount)
    (hf : ∀ g, s.formOf? v = some g → g.incidental f = false) :
    Concur (Value.Pair R) (run (plainField v f) s) (run (plainField v' f) s') := by
  have hnodes := hR.rel_nodeOf? h
  have hlacks := hR.concur_lacks (S := Value.Pair R) h f.key
  cases h with
  | plain hv =>
    cases v with
    | member m =>
      simp only [plainField, run_ite, run_pure]
      split_ifs
      · exact .ok (.plain (by simp))
      · exact .ok (.plain (by simp))
      · exact hlacks
    | ref a => exact absurd rfl (hv a)
    | _ => exact .error _
  | @cell a b hab =>
    simp only [plainField, run_bind, run_node?, ok_bind]
    simp only [Store.formOf?] at hf
    generalize s.nodeOf? (.ref a) = o, s'.nodeOf? (.ref b) = o' at hnodes hf
    cases hnodes with
    | none => exact hlacks
    | @some n m hnm =>
      have hrel := hnm.fields f (hf _ rfl)
      dsimp only
      generalize n.get? f = x, m.get? f = y at hrel
      cases hrel with
      | some hxy => exact .ok hxy
      | none =>
        dsimp only
        rw [hnm.form]
        cases hlent : n.form.lent? f with
        | some w => exact .ok (hR.pair_lent hlent)
        | none =>
          simp only [hcount, decide_false, Bool.false_and, Bool.false_eq_true, if_false]
          exact hlacks

theorem concur_plain (hf : f.isPlain = true) :
    Concur (Value.Pair R) (run (plainField v f) s) (run (plainField v' f) s') := by
  refine hR.concur_plainField h ?_ fun g _ => not_incidental hf g
  rintro rfl
  cases hf

/-- **Fields.** What is essential is read alike. -/
theorem concur_field (hf : Essential s v f) :
    Concur (Value.Pair R) (run (field v f) s) (run (field v' f) s') := by
  rw [run_field_eq, run_field_eq, hR.formOf?_eq h]
  cases hf with
  | plain hf =>
    cases hpath : (s.formOf? v).bind fun g => g.computed? f with
    | none => exact hR.concur_plain h hf
    | some path =>
      -- Of the two computed fields, only the block of a module is not a name.
      obtain ⟨g, -, hg⟩ := Option.bind_eq_some_iff.mp hpath
      have hname : f ≠ .name := by
        rintro rfl
        cases hf
      simp only [Form.computed?, hname, decide_false, Bool.false_and, Bool.false_eq_true, if_false,
        Option.ite_none_right_eq_some, Option.some.injEq] at hg
      obtain ⟨-, rfl⟩ := hg
      simp only [follow, run_bind, run_pure]
      exact (hR.concur_plain h rfl).bind fun w w' _ hw => .ok hw
  | @name g hv hg =>
    rw [hv, Option.bind_some, (named_computed g hg).1]
    refine hR.concur_plainField h (by simp) fun k hk => ?_
    cases hv.symm.trans hk
    exact (named_computed g hg).2
  | @computed w g hv hw hg hnamed =>
    rw [run_field_eq, hv] at hw
    rw [hv, show Option.bind (some Form.functionAsyncDef) (fun g => g.computed? .name)
      = some [.prototype, .name] from rfl]
    simp only [follow, run_bind, run_pure]
    refine (hR.concur_plain h rfl).bind fun p p' hp hpp => ?_
    cases hp.symm.trans hw
    refine Concur.bind (hR.concur_plainField hpp (by simp) fun k hk => ?_) fun w w' _ hw => .ok hw
    cases hg.symm.trans hk
    exact (named_computed g hnamed).2

end

/-- A likeness mirrors what is essential. -/
theorem mirror : Target.Mirror s s' (Essential s) (Value.Pair R) where
  plain := pair_eq
  cell {a c v'} h hc := by
    cases h with
    | plain hv => exact absurd rfl (hv a)
    | @cell _ b hab =>
      obtain ⟨c', d, hc', hd, halike⟩ := hR.cells hab
      cases hc.symm.trans hc'
      refine ⟨b, d, rfl, hd, ?_⟩
      cases halike with
      | node hnm => exact .node ⟨hnm.form, fun _ h => by cases h⟩
      | list h => exact .list h
      | tuple h => exact .tuple h
      | set h => exact .set h
      | dict h => exact .dict h
  nodes v := .plain rfl
  field h hf hw := by
    have hconcur := hR.concur_field h hf
    rw [hw] at hconcur
    generalize run (Look.field _ _) s' = o at hconcur
    cases hconcur with
    | ok hww => exact ⟨_, rfl, hww⟩
  missing {v v' f} h hf hnone := by
    have hconcur := hR.concur_field h hf
    rw [run_field?] at hnone ⊢
    generalize run (Look.field v f) s = o, run (Look.field v' f) s' = o' at hconcur hnone
    cases hconcur with
    | ok _ => cases hnone
    | error e => exact hnone

end Likeness

end ProgramTree
