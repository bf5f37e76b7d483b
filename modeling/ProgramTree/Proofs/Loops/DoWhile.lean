/-
Loops with their condition last.

A loop with its condition last runs its body, then tests its condition, and goes on if it holds.
The target has no such loop. The conversion makes one that never ends by itself, with a test at
the end of its body that leaves it.

Statements are run on states. A `Conduct` says what simple statements and tests do to a state, and
branches, loops and jumps are run as in the target. A loop is a sequence of rounds (`rounds`), so
two loops do the same exactly if they do the same in each round that they come to
(`rounds_eq_iff`), and the two loops here differ in a round just if its body ends with a jump to
the next round: that jump leads to the condition in the first loop, and past the test in the other.

To tell what was done from its result, a conduct can write down all that is done, with the state
in which it is done (`Conduct.logged`).
-/
import ProgramTree.Proofs.Expression

open ProgramTree.Look ProgramTree.Target.Convert

namespace ProgramTree.Target

/-! ## Running statements -/

/-- How statements end. -/
inductive Ending
  | normal
  /-- The loop around is left. -/
  | broke
  /-- The loop around goes on. -/
  | continued
  /-- Something was returned or raised. -/
  | left
  /-- A loop inside is not done within the limit. -/
  | unfinished
deriving DecidableEq, Repr

/-- What statements and tests do to a state. Tests that raise something have no answer. -/
structure Conduct (σ : Type) where
  act : Term → σ → Ending × σ
  judge : Term → σ → Option Bool × σ

section Running

variable {σ : Type}

/-- A number of rounds, one after the other. A round that does not end the loop has no ending, and
neither has a loop that still goes on after the rounds. -/
def rounds (round : σ → Option Ending × σ) : Nat → σ → Option Ending × σ
  | 0, x => (none, x)
  | n + 1, x =>
    match round x with
    | (none, y) => rounds round n y
    | (some e, y) => (some e, y)

/-- What the ending of its body means to a loop that is about to start its next round. -/
def afterBody : Ending × σ → Option Ending × σ
  | (.normal, y) | (.continued, y) => (none, y)
  | (.broke, y) => (some .normal, y)
  | (e, y) => (some e, y)

/-- What the answer to its condition means to a loop. -/
def afterTest : Option Bool × σ → Option Ending × σ
  | (none, y) => (some .left, y)
  | (some false, y) => (some .normal, y)
  | (some true, y) => (none, y)

/-- A round of a loop with its condition first. -/
def whileRound (test : σ → Option Bool × σ) (body : σ → Ending × σ) (x : σ) : Option Ending × σ :=
  match afterTest (test x) with
  | (none, y) => afterBody (body y)
  | (some e, y) => (some e, y)

/-- A round of a loop with its condition last. A jump to the next round leads to the condition. -/
def doWhileRound (test : σ → Option Bool × σ) (body : σ → Ending × σ) (x : σ) :
    Option Ending × σ :=
  match afterBody (body x) with
  | (none, y) => afterTest (test y)
  | (some e, y) => (some e, y)

variable (I : Conduct σ)

/-- Whether a test holds. -/
def Conduct.truth : Term → σ → Option Bool × σ
  | .unary .not t, x => ((Conduct.truth t x).1.map (!·), (Conduct.truth t x).2)
  | t, x => I.judge t x

/-- Whether a loop goes on. A loop on the literal for truth asks nothing. -/
def Conduct.loopTruth : Term → σ → Option Bool × σ
  | .constant (.bool true), x => (some true, x)
  | t, x => I.truth t x

mutual

/-- Running a statement. The limit is for the rounds of the loops inside. -/
def Term.exec (limit : Nat) : Term → σ → Ending × σ
  | .pass, x => (.normal, x)
  | .breakLoop, x => (.broke, x)
  | .continueLoop, x => (.continued, x)
  | .ifStmt test body orElse, x =>
    match I.truth test x with
    | (none, y) => (.left, y)
    | (some true, y) => execAll limit body y
    | (some false, y) => execAll limit orElse y
  | .whileLoop test body, x =>
    let r := rounds (whileRound (I.loopTruth test) fun y => execAll limit body y) limit x
    (r.1.getD .unfinished, r.2)
  | t, x => I.act t x

/-- Running statements one after the other, up to the first that does not end normally. -/
def execAll (limit : Nat) : List Term → σ → Ending × σ
  | [], x => (.normal, x)
  | t :: ts, x =>
    match t.exec limit x with
    | (.normal, y) => execAll limit ts y
    | r => r

end

/-- The rounds of a loop in the target. -/
def whileRounds (limit : Nat) (test : Term) (body : List Term) : Nat → σ → Option Ending × σ :=
  rounds (whileRound (I.loopTruth test) (execAll I limit body))

/-- The rounds of a loop with its condition last. -/
def doWhileRounds (limit : Nat) (body : List Term) (condition : Term) :
    Nat → σ → Option Ending × σ :=
  rounds (doWhileRound (I.truth condition) (execAll I limit body))

/-- The same conduct on states with a list of all statements and tests so far, each with the state
it was met in. -/
def Conduct.logged : Conduct (σ × List (Term × σ)) where
  act t x := ((I.act t x.1).1, (I.act t x.1).2, x.2 ++ [(t, x.1)])
  judge t x := ((I.judge t x.1).1, (I.judge t x.1).2, x.2 ++ [(t, x.1)])

end Running

section Rounds

variable {σ : Type} {f g : σ → Option Ending × σ} {I : Conduct σ} {limit : Nat} {x : σ}

/-! ## Rounds -/

/-- One more round at the end. The induction is on the rounds before it. -/
theorem rounds_succ (f : σ → Option Ending × σ) (n : Nat) (x : σ) :
    rounds f (n + 1) x = match rounds f n x with
      | (none, y) => f y
      | (some e, y) => (some e, y) := by
  induction n generalizing x with
  | zero =>
    simp only [rounds]
    split
    · next h => exact h.symm
    · next h => exact h.symm
  | succ n ih =>
    rw [rounds]
    cases hx : f x with
    | mk e y =>
      cases e with
      | none =>
        have hfirst : rounds f (n + 1) x = rounds f n y := by rw [rounds, hx]
        rw [hfirst]
        exact ih y
      | some e =>
        have hfirst : rounds f (n + 1) x = (some e, y) := by rw [rounds, hx]
        rw [hfirst]

/-- **Loops.** Two loops do the same for any number of rounds exactly if they do the same in each
round that the second one comes to. -/
theorem rounds_eq_iff :
    (∀ n, rounds f n x = rounds g n x) ↔ ∀ n y, rounds g n x = (none, y) → f y = g y := by
  constructor
  · intro h n y hy
    have hnext := h (n + 1)
    rw [rounds_succ, rounds_succ, h n, hy] at hnext
    exact hnext
  · intro h n
    induction n with
    | zero => rfl
    | succ n ih =>
      rw [rounds_succ, rounds_succ, ih]
      cases hx : rounds g n x with
      | mk e y =>
        cases e with
        | none => exact h n y hx
        | some e => rfl

theorem execAll_append (ts us : List Term) (x : σ) :
    execAll I limit (ts ++ us) x = match execAll I limit ts x with
      | (.normal, y) => execAll I limit us y
      | r => r := by
  induction ts generalizing x with
  | nil => rfl
  | cons t ts ih =>
    rw [List.cons_append, execAll, execAll]
    cases ht : t.exec I limit x with
    | mk e y =>
      cases e with
      | normal => exact ih y
      | _ => rfl

/-- The test at the end of the body: the loop is left unless the condition holds. -/
def leaving (condition : Term) : Term :=
  .ifStmt (negated condition) [.breakLoop] []

theorem exec_leaving (condition : Term) (x : σ) :
    execAll I limit [leaving condition] x = match I.truth condition x with
      | (none, y) => (.left, y)
      | (some true, y) => (.normal, y)
      | (some false, y) => (.broke, y) := by
  simp only [execAll, leaving, Term.exec, negated, Conduct.truth]
  cases I.truth condition x with
  | mk b y =>
    match b with
    | none => rfl
    | some true => rfl
    | some false => rfl

/-- A round of the loop that never ends by itself, with the test at the end of its body. -/
theorem whileRound_leaving (body : List Term) (condition : Term) (x : σ) :
    whileRound (I.loopTruth (.constant (.bool true)))
      (execAll I limit (body ++ [leaving condition])) x =
      match execAll I limit body x with
        | (.normal, y) => afterTest (I.truth condition y)
        | r => afterBody r := by
  simp only [whileRound, Conduct.loopTruth, afterTest, execAll_append]
  cases execAll I limit body x with
  | mk e y =>
    cases e with
    | normal =>
      simp only [exec_leaving]
      cases I.truth condition y with
      | mk b z =>
        match b with
        | none => rfl
        | some true => rfl
        | some false => rfl
    | _ => rfl

/-- **One round.** The two loops do the same in a round just if its body does not end with a jump
to the next round, if a test leaves something behind. -/
theorem whileRound_eq_iff {body : List Term} {condition : Term}
    (hseen : ∀ y, (I.truth condition y).2 ≠ y) :
    whileRound (I.loopTruth (.constant (.bool true)))
      (execAll I limit (body ++ [leaving condition])) x =
        doWhileRound (I.truth condition) (execAll I limit body) x ↔
      (execAll I limit body x).1 ≠ .continued := by
  rw [whileRound_leaving, doWhileRound]
  cases execAll I limit body x with
  | mk e y =>
    cases e with
    | normal => simp [afterBody]
    | broke => simp [afterBody]
    | left => simp [afterBody]
    | unfinished => simp [afterBody]
    | continued =>
      -- After the jump one of them has tested its condition, and the other has not.
      simp only [afterBody, ne_eq, not_true_eq_false, iff_false]
      intro heq
      refine hseen y (Eq.trans ?_ (congrArg Prod.snd heq).symm)
      cases I.truth condition y with
      | mk b z =>
        match b with
        | none => rfl
        | some true => rfl
        | some false => rfl

/-- A test is written down. -/
theorem truth_logged_ne (condition : Term) (x : σ × List (Term × σ)) :
    (I.logged.truth condition x).2 ≠ x := by
  have hlength : (I.logged.truth condition x).2.2.length = x.2.length + 1 := by
    fun_induction Conduct.truth I.logged condition x with
    | case1 t x ih => exact ih
    | case2 t x => simp [Conduct.logged]
  intro heq
  rw [heq] at hlength
  omega

/-- A loop in the target does what a loop with its condition last does, from some state on and for
any number of rounds: the same statements and tests in the same states, and it comes to the same
end. -/
def Conduct.Keeps (I : Conduct σ) (limit : Nat) (test : Term) (stmts body : List Term)
    (condition : Term) (x : σ) : Prop :=
  ∀ n, whileRounds I.logged limit test stmts n (x, []) =
    doWhileRounds I.logged limit body condition n (x, [])

/-- Some round that a loop with its condition last comes to ends with a jump to the next round. -/
def Conduct.JumpsOn (I : Conduct σ) (limit : Nat) (body : List Term) (condition : Term) (x : σ) :
    Prop :=
  ∃ n y, doWhileRounds I.logged limit body condition n (x, []) = (none, y) ∧
    (execAll I.logged limit body y).1 = .continued

/-- **Conditions last.** The loop with the test at the end of its body is kept exactly if there is
no jump from a round to the next. -/
theorem keeps_iff (I : Conduct σ) (limit : Nat) (body : List Term) (condition : Term) (x : σ) :
    I.Keeps limit (.constant (.bool true)) (body ++ [leaving condition]) body condition x ↔
      ¬I.JumpsOn limit body condition x := by
  have hrounds : I.Keeps limit (.constant (.bool true)) (body ++ [leaving condition]) body
      condition x ↔ ∀ n y, doWhileRounds I.logged limit body condition n (x, []) = (none, y) →
        (execAll I.logged limit body y).1 ≠ .continued :=
    rounds_eq_iff.trans (forall₃_congr fun _ _ _ => whileRound_eq_iff (truth_logged_ne condition))
  rw [hrounds, Conduct.JumpsOn]
  push Not
  rfl

end Rounds

/-! ## Bodies without the jump -/

mutual

/-- Whether a jump to the next round stands in a statement, outside of the loops in it. -/
def Term.jumps : Term → Bool
  | .continueLoop => true
  | .ifStmt _ body orElse => jumpsAny body || jumpsAny orElse
  | _ => false

def jumpsAny : List Term → Bool
  | [] => false
  | t :: ts => t.jumps || jumpsAny ts

end

section Jumps

variable {σ : Type} {I : Conduct σ}

/-- A loop ends normally, or in a way that is not meant for loops. -/
theorem rounds_whileRound_ne (test : σ → Option Bool × σ) (body : σ → Ending × σ) (n : Nat)
    (x : σ) : (rounds (whileRound test body) n x).1 ≠ some .continued := by
  have hround : ∀ y, (whileRound test body y).1 ≠ some .continued := by
    intro y
    unfold whileRound
    split
    · next z _ =>
      cases body z with
      | mk e w => cases e <;> simp [afterBody]
    · next e z heq =>
      cases htest : test y with
      | mk b w =>
        rw [htest] at heq
        match b with
        | none | some true | some false =>
          cases heq
          try simp
  induction n generalizing x with
  | zero => simp [rounds]
  | succ n ih =>
    rw [rounds]
    have hx := hround x
    cases hf : whileRound test body x with
    | mk e y =>
      rw [hf] at hx
      cases e with
      | none => exact ih y
      | some e => exact hx

mutual

/-- Without the jump, a statement does not end with one, if simple statements do not. -/
theorem exec_ne_continued (hact : ∀ t x, (I.act t x).1 ≠ .continued) (limit : Nat) (t : Term)
    (h : t.jumps = false) (x : σ) : (t.exec I limit x).1 ≠ .continued := by
  cases t with
  | pass => simp [Term.exec]
  | breakLoop => simp [Term.exec]
  | continueLoop => cases h
  | ifStmt test body orElse =>
    rw [Term.jumps, Bool.or_eq_false_iff] at h
    rw [Term.exec]
    split
    · simp
    · exact execAll_ne_continued hact limit body h.1 _
    · exact execAll_ne_continued hact limit orElse h.2 _
  | whileLoop test body =>
    have hloop := rounds_whileRound_ne (I.loopTruth test) (fun y => execAll I limit body y) limit x
    simp only [Term.exec]
    intro heq
    cases hr : (rounds (whileRound (I.loopTruth test) fun y => execAll I limit body y) limit x).1
      with
    | none =>
      rw [hr] at heq
      cases heq
    | some e =>
      rw [hr] at heq hloop
      exact hloop (congrArg some heq)
  | _ => exact hact _ x

theorem execAll_ne_continued (hact : ∀ t x, (I.act t x).1 ≠ .continued) (limit : Nat)
    (ts : List Term) (h : jumpsAny ts = false) (x : σ) :
    (execAll I limit ts x).1 ≠ .continued := by
  cases ts with
  | nil => simp [execAll]
  | cons t ts =>
    rw [jumpsAny, Bool.or_eq_false_iff] at h
    have ht := exec_ne_continued hact limit t h.1 x
    rw [execAll]
    cases hx : t.exec I limit x with
    | mk e y =>
      rw [hx] at ht
      cases e with
      | normal => exact execAll_ne_continued hact limit ts h.2 y
      | _ => exact ht

end

/-- There is no jump where none is written. -/
theorem not_jumpsOn (hact : ∀ t x, (I.act t x).1 ≠ .continued) {body : List Term}
    (h : jumpsAny body = false) (limit : Nat) (condition : Term) (x : σ) :
    ¬I.JumpsOn limit body condition x := by
  rintro ⟨n, y, -, hjump⟩
  exact execAll_ne_continued (I := I.logged) (fun t z => hact t z.1) limit body h y hjump

end Jumps

/-! ## Nodes -/

section Nodes

variable {s : Store} {v c b : Value} {l : Address} {xs : List Value} {condition : Term}

/-- The loop that the conversion makes. -/
theorem run_term_doWhile (hv : s.formOf? v = some .doWhileStmt)
    (hc : run (field v .condition) s = .ok c) (hb : run (field v .body) s = .ok b)
    (hxs : IsContainer s b l xs)
    (hcondition : run (toDepth s.cells.size c) s = .ok condition) :
    run (term v) s = .ok (.whileLoop (.constant (.bool true))
      (bodyOf (toDepth s.cells.size) s xs ++ [leaving condition])) := by
  obtain ⟨n, hn, hform⟩ := Option.map_eq_some_iff.mp hv
  rw [run_term]
  refine run_step (m := ⟨.oneOf ["While"], doWhileStmt⟩) hn (by rw [hform]; rfl) ?_ rfl
  rw [doWhileStmt, run_requiring (by simp [hc, hb])]
  simp only [run_bind, run_fieldBlock hb hxs, ok_bind, run_visitField, hc, hcondition, run_pure,
    leaving]

/-- **Loops with their condition last.** If the condition and all nodes of the body can be
converted, so can the loop. What it becomes keeps to it exactly if no round that the loop comes to
ends with a jump to the next round; a body without such a jump is enough for that. -/
theorem do_while_kept_iff {τ : Value → Term} (hv : s.formOf? v = some .doWhileStmt)
    (hc : run (field v .condition) s = .ok c) (hb : run (field v .body) s = .ok b)
    (hxs : IsContainer s b l xs) (hcondition : run (toDepth s.cells.size c) s = .ok condition)
    (hnodes : ∀ x ∈ xs, run (toDepth s.cells.size x) s = .ok (τ x)) :
    ∃ test stmts, run (term v) s = .ok (.whileLoop test stmts) ∧
      ∀ (σ : Type) (I : Conduct σ) (limit : Nat) (x : σ),
        (I.Keeps limit test stmts (shownBody (xs.map τ)) condition x ↔
          ¬I.JumpsOn limit (shownBody (xs.map τ)) condition x) ∧
        ((∀ t y, (I.act t y).1 ≠ .continued) → jumpsAny (shownBody (xs.map τ)) = false →
          I.Keeps limit test stmts (shownBody (xs.map τ)) condition x) := by
  refine ⟨_, _, run_term_doWhile hv hc hb hxs hcondition, fun σ I limit x => ?_⟩
  rw [bodyOf_eq_shownBody hnodes]
  have hiff := keeps_iff I limit (shownBody (xs.map τ)) condition x
  exact ⟨hiff, fun hact hjumps => hiff.mpr (not_jumpsOn hact hjumps limit condition x)⟩

end Nodes

/-! ## Two jumps -/

/-- A loop whose body is a jump and whose condition does not hold. -/
def jumping (jump : Form) : Build Unit := do
  let test ← Build.construct .literalBoolean [] [(.value, .bool false)]
  let body ← Build.construct .block [] []
  let node ← Build.construct jump [] []
  Build.append (.ref body) (.ref node)
  let _ ← Build.construct .doWhileStmt [] [(.condition, .ref test), (.body, .ref body)]

/-- The store with the loop in it. -/
def jumpingStore (jump : Form) : Store :=
  (jumping jump Store.initial).2

/-- What the constructors left behind. -/
theorem jumpingStore_nodes : ∀ jump ∈ [Form.breakStmt, .continueStmt],
    let s := jumpingStore jump
    s.formOf? (.ref 28) = some .doWhileStmt ∧
    run (field (.ref 28) .condition) s = .ok (.ref 21) ∧
    run (field (.ref 28) .body) s = .ok (.ref 25) ∧ IsContainer s (.ref 25) 26 [.ref 27] ∧
    (s.formOf? (.ref 21) = some .literalBoolean ∧
      run (field (.ref 21) .value) s = .ok (.bool false)) ∧
    s.formOf? (.ref 27) = some jump ∧ s.cells.size = 29 := by
  decide +kernel

/-- The jump and the condition can be converted. -/
theorem run_jumping (jump : Form) (t : Term) (h : jump ∈ [Form.breakStmt, .continueStmt])
    (hm : method? jump = giving t.className fun _ _ => return t) :
    run (toDepth (jumpingStore jump).cells.size (.ref 21)) (jumpingStore jump) =
      .ok (.constant (.bool false)) ∧
    ∀ x ∈ [Value.ref 27],
      run (toDepth (jumpingStore jump).cells.size x) (jumpingStore jump) = .ok t := by
  obtain ⟨-, -, -, -, ⟨htest, hvalue⟩, hjump, hsize⟩ := jumpingStore_nodes jump h
  rw [hsize]
  refine ⟨(settlesAt_literal htest (by decide) hvalue rfl rfl).run 29 (by decide), ?_⟩
  intro x hx
  obtain rfl := List.mem_singleton.mp hx
  obtain ⟨n, hn, hform⟩ := Option.map_eq_some_iff.mp hjump
  exact run_step hn (hform ▸ hm) rfl (check_oneOf_eq_ok.mpr (List.mem_singleton_self _))

/-- A loop whose body leaves it is kept. -/
theorem leavingLoop_kept : ∃ test stmts,
    run (term (.ref 28)) (jumpingStore .breakStmt) = .ok (.whileLoop test stmts) ∧
    ∀ (σ : Type) (I : Conduct σ) (limit : Nat) (x : σ), (∀ t y, (I.act t y).1 ≠ .continued) →
      I.Keeps limit test stmts [.breakLoop] (.constant (.bool false)) x := by
  obtain ⟨hloop, hc, hb, hnodes, -⟩ := jumpingStore_nodes .breakStmt (by decide)
  obtain ⟨hcondition, hbody⟩ := run_jumping .breakStmt .breakLoop (by decide) rfl
  obtain ⟨test, stmts, hterm, hkept⟩ :=
    do_while_kept_iff (τ := fun _ => .breakLoop) hloop hc hb hnodes hcondition hbody
  exact ⟨test, stmts, hterm, fun σ I limit x hact => (hkept σ I limit x).2 hact rfl⟩

/-- States and tests without any meaning: no test holds. -/
def denying : Conduct Unit where
  act _ _ := (.normal, ())
  judge _ _ := (some false, ())

/-- A loop whose body jumps to the next round ends after one round, because its condition does not
hold. What it becomes never tests the condition, and goes on for ever. -/
theorem jumpingLoop_goes_on : ∃ test stmts,
    run (term (.ref 28)) (jumpingStore .continueStmt) = .ok (.whileLoop test stmts) ∧
    doWhileRounds denying.logged 0 [.continueLoop] (.constant (.bool false)) 1 ((), []) =
      (some .normal, ((), [(.constant (.bool false), ())])) ∧
    ∀ n, whileRounds denying.logged 0 test stmts n ((), []) = (none, ((), [])) := by
  obtain ⟨hloop, hc, hb, hnodes, -⟩ := jumpingStore_nodes .continueStmt (by decide)
  obtain ⟨hcondition, hbody⟩ := run_jumping .continueStmt .continueLoop (by decide) rfl
  refine ⟨_, _, run_term_doWhile hloop hc hb hnodes hcondition, rfl, fun n => ?_⟩
  rw [bodyOf_eq_shownBody (ρ := fun _ => .continueLoop) hbody]
  induction n with
  | zero => rfl
  | succ n ih => exact ih

end ProgramTree.Target
