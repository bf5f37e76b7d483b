/-
Counted loops.

A counted loop starts its variable at a number, goes on as long as a comparison with another
number holds, and changes the variable after each round. A loop over a range takes the numbers
from a first one up to an end, one by one. The conversion makes the second of the first, and
looks for that at the first number and, if the condition is a chain of comparisons, at the number
that it compares with; the sign and the change do not matter to it.

`Counter.Takes` is what the variable of the counted loop is at the start of each round, for as
long as there are rounds. `Counter.Kept` says when the range has just these numbers.
-/
import Mathlib.Data.Int.Range
import ProgramTree.Proofs.Meaning

open ProgramTree.Look ProgramTree.Target.Convert

namespace ProgramTree.Target

/-! ## Counting -/

/-- How a loop counts. -/
structure Counter where
  name : String
  start : Int
  sign : CompareSign
  bound : Int
  /-- Whether the condition is a chain of comparisons; if not, it is an operator. -/
  chained : Bool
  /-- Whether the change is added or taken away. -/
  adds : Bool
  change : Int

namespace Counter

variable (c : Counter)

/-- How much the variable grows in a round. -/
def step : Int :=
  if c.adds then c.change else -c.change

/-- The condition holds. -/
def GoesOn (i : Int) : Prop :=
  integerCompare c.sign i c.bound = some true

instance : DecidablePred c.GoesOn := fun i =>
  inferInstanceAs (Decidable (integerCompare c.sign i c.bound = some true))

/-- What the variable is at the start of each round, from some number on, if the rounds come to
an end. The body of the loop leaves the variable alone. -/
inductive Takes : Int → List Int → Prop
  | stop {i : Int} (h : ¬c.GoesOn i) : Takes i []
  | round {i : Int} {is : List Int} (h : c.GoesOn i) (hrest : Takes (i + c.step) is) :
    Takes i (i :: is)

/-- The end of the range. -/
def finish : Int :=
  if c.chained then c.bound else 10

/-- The number at which counting up one by one comes to its end. -/
def ending : Int :=
  match c.sign with
  | .eq | .ltE => c.bound + 1
  | _ => c.bound

/-- The range has the numbers that the variable takes: no round and nothing in the range, or one
round and one number in the range, or more rounds, one by one, up to the end of the range. -/
def Kept : Prop :=
  if c.GoesOn c.start then
    if c.GoesOn (c.start + c.step) then c.step = 1 ∧ c.finish = c.ending
    else c.finish = c.start + 1
  else c.finish ≤ c.start

instance : Decidable c.Kept := by
  unfold Kept
  infer_instance

end Counter

/-! ## Ranges -/

/-- The numbers of a range, by the term that makes it. -/
def Term.rangeNumbers? : Term → Option (List Int)
  | .call (.name (.text "range") .load) [.constant (.int first), .constant (.int finish)] [] =>
    some (Int.range first finish)
  | _ => none

theorem range_eq_nil {a b : Int} : Int.range a b = [] ↔ b ≤ a := by
  simp only [Int.range, List.map_eq_nil_iff, List.range_eq_nil]
  omega

theorem range_eq_cons {a b : Int} (h : a < b) : Int.range a b = a :: Int.range (a + 1) b := by
  have hlength : (b - a).toNat = (b - (a + 1)).toNat + 1 := by omega
  simp only [Int.range, hlength, List.range_succ_eq_map, List.map_cons, List.map_map]
  congr 1
  · simp
  · refine List.map_congr_left fun k _ => ?_
    simp only [Function.comp_apply, Nat.succ_eq_add_one]
    omega

/-- Ranges that start together and are not empty are equal if they end together. -/
theorem range_right_inj {a b b' : Int} (h : a < b) :
    Int.range a b' = Int.range a b ↔ b' = b := by
  constructor
  · intro heq
    have hlength := congrArg List.length heq
    simp only [Int.range, List.length_map, List.length_range] at hlength
    omega
  · rintro rfl
    rfl

namespace Counter

variable {c : Counter} {i : Int} {is : List Int}

theorem Takes.eq_nil (h : c.Takes i is) (hstop : ¬c.GoesOn i) : is = [] := by
  cases h with
  | stop => rfl
  | round h => exact absurd h hstop

theorem Takes.eq_cons (h : c.Takes i is) (hgo : c.GoesOn i) :
    ∃ js, is = i :: js ∧ c.Takes (i + c.step) js := by
  cases h with
  | stop h => exact absurd hgo h
  | round _ hrest => exact ⟨_, rfl, hrest⟩

/-- The last number for which the condition holds is the one before the ending. -/
theorem ending_eq (hgo : c.GoesOn i) (hstop : ¬c.GoesOn (i + 1)) : c.ending = i + 1 := by
  unfold GoesOn at hgo hstop
  unfold ending
  cases hsign : c.sign <;> simp [hsign, integerCompare] at hgo hstop ⊢ <;> omega

/-- **Counting up.** One by one, the variable takes all numbers up to the ending. The induction
is on the rounds. -/
theorem Takes.eq_range (hstep : c.step = 1) (h : c.Takes i is) (hgo : c.GoesOn i) :
    i < c.ending ∧ is = Int.range i c.ending := by
  induction h with
  | stop h => exact absurd hgo h
  | @round i is h hrest ih =>
    rw [hstep] at hrest ih
    by_cases hnext : c.GoesOn (i + 1)
    · obtain ⟨hlt, rfl⟩ := ih hnext
      have hi : i < c.ending := by omega
      exact ⟨hi, (range_eq_cons hi).symm⟩
    · have hending := ending_eq h hnext
      have hi : i < c.ending := by omega
      rw [hrest.eq_nil hnext, range_eq_cons hi, range_eq_nil.mpr (by omega)]
      exact ⟨hi, rfl⟩

/-- **Ranges.** The range has the numbers that the variable takes just if the counter is of the
kind that is kept. -/
theorem Takes.range_eq_iff (h : c.Takes c.start is) :
    Int.range c.start c.finish = is ↔ c.Kept := by
  unfold Kept
  by_cases hfirst : c.GoesOn c.start
  · rw [if_pos hfirst]
    obtain ⟨js, rfl, hrest⟩ := h.eq_cons hfirst
    by_cases hsecond : c.GoesOn (c.start + c.step)
    · rw [if_pos hsecond]
      obtain ⟨ks, rfl, -⟩ := hrest.eq_cons hsecond
      constructor
      · intro hrange
        -- The range goes up one by one, so its second number tells the step.
        have hlt : c.start < c.finish := by
          refine lt_of_not_ge fun hle => ?_
          rw [range_eq_nil.mpr hle] at hrange
          cases hrange
        have htail := hrange
        rw [range_eq_cons hlt, List.cons.injEq] at htail
        have hlt' : c.start + 1 < c.finish := by
          refine lt_of_not_ge fun hle => ?_
          rw [range_eq_nil.mpr hle] at htail
          cases htail.2
        rw [range_eq_cons hlt', List.cons.injEq] at htail
        have hstep : c.step = 1 := by omega
        obtain ⟨hending, heq⟩ := h.eq_range hstep hfirst
        exact ⟨hstep, (range_right_inj hending).mp (hrange.trans heq)⟩
      · rintro ⟨hstep, hfinish⟩
        rw [hfinish]
        exact (h.eq_range hstep hfirst).2.symm
    · rw [if_neg hsecond, hrest.eq_nil hsecond]
      have hone : Int.range c.start (c.start + 1) = [c.start] := by
        rw [range_eq_cons (by omega), range_eq_nil.mpr (by omega)]
      rw [← hone, range_right_inj (by omega)]
  · rw [if_neg hfirst, h.eq_nil hfirst, range_eq_nil]

/-- A chain that asks whether the variable is less, counted up one by one, is always kept. -/
theorem kept_of_lt (hchained : c.chained = true) (hsign : c.sign = .lt) (hstep : c.step = 1) :
    c.Kept := by
  have hgoes : ∀ i, c.GoesOn i ↔ i < c.bound := by
    simp [GoesOn, hsign, integerCompare]
  have hending : c.ending = c.bound := by simp [ending, hsign]
  simp only [Kept, hgoes, finish, hchained, if_true, hstep, hending, true_and]
  split
  · split
    · trivial
    · omega
  · omega

end Counter

/-! ## Nodes -/

section Nodes

variable {s : Store} {v x u : Value} {c : Counter}

/-- A condition that compares the variable with the bound: a chain of one comparison, or an
operator. -/
inductive Counter.IsCondition (s : Store) (c : Counter) : Value → Prop
  | chain {x l o y : Value} {a : Address} {code : String} (hc : c.chained = true)
      (hx : s.formOf? x = some .compareOp) (hl : run (field x .left) s = .ok l)
      (hleft : Denotes s l (.use c.name)) (ho : run (field x .ops) s = .ok o)
      (hcode : Contains s o [.text code]) (hsign : CompareSign.ofText? code = some c.sign)
      (hcells : run (field x .comparators) s = .ok (.ref a))
      (hlist : s.cell? a = some (.list [y])) (hbound : Denotes s y (.number c.bound)) :
      IsCondition s c x
  | operator {x l y : Value} {code : String} (hc : c.chained = false)
      (hx : s.formOf? x = some .binaryOp) (hcode : run (field x .opCode) s = .ok (.text code))
      (hsign : CompareSign.ofText? code = some c.sign) (hl : run (field x .lhs) s = .ok l)
      (hleft : Denotes s l (.use c.name)) (hy : run (field x .rhs) s = .ok y)
      (hbound : Denotes s y (.number c.bound))
      (hmissing : run (field? x .comparators) s = .ok none) : IsCondition s c x

/-- An assignment that changes the variable. -/
structure Counter.IsUpdate (s : Store) (c : Counter) (u : Value) : Prop where
  form : s.formOf? u = some .augAssign
  target : ∃ t, run (field u .target) s = .ok t ∧ s.formOf? t = some .identifier ∧
    run (field t .name) s = .ok (.text c.name)
  code : run (field u .opCode) s = .ok (.text (if c.adds then "+=" else "-="))
  change : ∃ w, run (field u .value) s = .ok w ∧ Denotes s w (.number c.change)

/-- The node of a loop that counts. -/
structure Counter.IsLoop (s : Store) (c : Counter) (v : Value) : Prop where
  form : s.formOf? v = some .forCountLoopStmt
  initializer : ∃ y w, run (field v .initializer) s = .ok y ∧
    s.formOf? y = some .inlineVariableDeclaration ∧ run (field y .name) s = .ok (.text c.name) ∧
    run (field y .value) s = .ok w ∧ Denotes s w (.number c.start)
  condition : ∃ x, run (field v .condition) s = .ok x ∧ c.IsCondition s x
  update : ∃ u, run (field v .update) s = .ok u ∧ c.IsUpdate s u
  body : ∃ b l xs, run (field v .body) s = .ok b ∧ IsContainer s b l xs

/-- Numbers are converted at once. -/
theorem Denotes.run_number {w : Value} {n : Int} {depth : Nat} (h : Denotes s w (.number n)) :
    run (toDepth (depth + 1) w) s = .ok (.constant (.int n)) := by
  cases h with
  | number hv hg hvalue =>
    exact (settlesAt_literal hv hg hvalue rfl rfl).run _ (Nat.le_add_left 1 depth)

/-- The end of the range is the bound, if the condition is a chain. -/
theorem Counter.IsCondition.run_countEnd {depth : Nat} (h : c.IsCondition s x) :
    run (countEnd (toDepth (depth + 1)) x) s = .ok (.constant (.int c.finish)) := by
  cases h with
  | chain hc _ _ _ _ _ _ hcells hlist hbound =>
    have htrue := (Contains.plain hlist rfl).run_truthy
    simp only [countEnd, run_bind, run_truthyField?_of_ok hcells htrue, ok_bind, List.length_cons,
      List.length_nil, bne_iff_ne, ne_eq, Nat.add_one_ne_zero, not_false_eq_true, if_true,
      run_item_zero hlist, hbound.run_number, finish, hc]
  | operator hc _ _ _ _ _ _ _ hmissing =>
    simp only [countEnd, run_bind, run_truthyField?_of_none hmissing, ok_bind, run_pure, finish,
      hc, Bool.false_eq_true, if_false]

/-- A loop that counts is converted to a loop over a range. -/
theorem Counter.IsLoop.run_term (h : c.IsLoop s v) : ∃ body, run (term v) s =
    .ok (.forLoop (Term.store (.text c.name))
      (Term.callOf "range" [.constant (.int c.start), .constant (.int c.finish)]) body false) := by
  obtain ⟨y, w, hy, -, hname, hw, hstart⟩ := h.initializer
  obtain ⟨x, hx, hcondition⟩ := h.condition
  obtain ⟨u, hu, -⟩ := h.update
  obtain ⟨b, l, xs, hb, hxs⟩ := h.body
  -- There is a node, so there is a level below the loop.
  obtain ⟨a, -, hlt⟩ := Store.ref_of_formOf? h.form
  obtain ⟨depth, hdepth⟩ := Nat.exists_eq_add_of_lt hlt
  obtain ⟨n, hn, hform⟩ := Option.map_eq_some_iff.mp h.form
  refine ⟨bodyOf (toDepth (a + depth + 1)) s xs, ?_⟩
  rw [Convert.run_term, hdepth]
  refine run_step (m := ⟨.oneOf ["For"], countStmt⟩) hn (by rw [hform]; rfl) ?_ rfl
  rw [countStmt, run_requiring (by simp [hy, hx, hu])]
  simp only [run_bind, hy, ok_bind, run_fieldDoc, hname, run_doc_text, run_field?_of_ok hw,
    hstart.run_number, hx, hcondition.run_countEnd, run_fieldBlock hb hxs, run_pure]

/-- **Counted loops.** The loop over a range that a counted loop becomes takes the numbers that
the counted loop takes, if this comes to an end, exactly if the counter is of the kind that is
kept. -/
theorem counted_loop_kept_iff (h : c.IsLoop s v) :
    ∃ iterable body numbers,
      run (term v) s = .ok (.forLoop (Term.store (.text c.name)) iterable body false) ∧
      iterable.rangeNumbers? = some numbers ∧
      ∀ is, c.Takes c.start is → (numbers = is ↔ c.Kept) := by
  obtain ⟨body, hterm⟩ := h.run_term
  exact ⟨_, body, _, hterm, rfl, fun is his => his.range_eq_iff⟩

end Nodes

/-! ## Two loops -/

/-- A loop that counts from zero as long as the number is less than four. -/
def countingBy (change : Int) : Build Unit := do
  let type ← Build.construct .int32 [] []
  let start ← Build.construct .literalInt32 [] [(.value, .int 0)]
  let i ← Build.construct .inlineVariableDeclaration []
    [(.name, .text "i"), (.type, .ref type), (.value, .ref start)]
  let use ← Build.construct .variableUse [] [(.name, .text "i")]
  let four ← Build.construct .literalInt32 [] [(.value, .int 4)]
  let signs ← Build.newList [.text "<"]
  let bounds ← Build.newList [.ref four]
  let test ← Build.construct .compareOp []
    [(.left, .ref use), (.ops, signs), (.comparators, bounds)]
  let target ← Build.construct .identifier [] [(.name, .text "i")]
  let change ← Build.construct .literalInt32 [] [(.value, .int change)]
  let next ← Build.construct .augAssign []
    [(.target, .ref target), (.opCode, .text "+="), (.value, .ref change)]
  let body ← Build.construct .block [] []
  let _ ← Build.construct .forCountLoopStmt [] [(.initializer, .ref i), (.condition, .ref test),
    (.update, .ref next), (.body, .ref body)]

/-- The store with the loop in it. -/
def countingByStore (change : Int) : Store :=
  (countingBy change Store.initial).2

/-- How the loop counts. -/
def counterBy (change : Int) : Counter :=
  ⟨"i", 0, .lt, 4, true, true, change⟩

/-- What the constructors left behind, by ones and by twos. -/
theorem countingByStore_nodes : ∀ change ∈ [(1 : Int), 2],
    let s := countingByStore change
    (s.formOf? (.ref 54) = some .forCountLoopStmt ∧
      run (field (.ref 54) .initializer) s = .ok (.ref 27) ∧
      run (field (.ref 54) .condition) s = .ok (.ref 38) ∧
      run (field (.ref 54) .update) s = .ok (.ref 50) ∧
      run (field (.ref 54) .body) s = .ok (.ref 52) ∧ IsContainer s (.ref 52) 53 []) ∧
    NodeWith s (.ref 27) .inlineVariableDeclaration [(.name, .text "i"), (.value, .ref 23)] ∧
    NodeWith s (.ref 23) .literalInt32 [(.value, .int 0)] ∧
    (s.formOf? (.ref 38) = some .compareOp ∧ run (field (.ref 38) .left) s = .ok (.ref 28) ∧
      run (field (.ref 38) .ops) s = .ok (.ref 40) ∧
      (s.cell? 40).bind sequence? = some [.text "<"] ∧
      run (field (.ref 38) .comparators) s = .ok (.ref 41) ∧
      (s.cell? 41).bind listItems? = some [.ref 32]) ∧
    NodeWith s (.ref 28) .variableUse [(.name, .text "i")] ∧
    NodeWith s (.ref 32) .literalInt32 [(.value, .int 4)] ∧
    NodeWith s (.ref 50) .augAssign [(.target, .ref 42), (.opCode, .text "+="), (.value, .ref 46)] ∧
    NodeWith s (.ref 42) .identifier [(.name, .text "i")] ∧
    NodeWith s (.ref 46) .literalInt32 [(.value, .int change)] := by
  decide +kernel

theorem isLoop_countingBy (change : Int) (h : change ∈ [(1 : Int), 2]) :
    (counterBy change).IsLoop (countingByStore change) (.ref 54) := by
  obtain ⟨⟨hloop, hinit, hcondition, hupdate, hbody, hnodes⟩, ⟨hdecl, hname, hvalue⟩,
    ⟨hstart, hstartValue⟩, ⟨htest, hleft, hops, hsigns, hcomparators, hbounds⟩,
    ⟨huse, huseName⟩, ⟨hfour, hfourValue⟩, ⟨hnext, htarget, hcode, hchange⟩,
    ⟨hid, hidName⟩, ⟨hby, hbyValue⟩⟩ := countingByStore_nodes change h
  obtain ⟨cell, hcell, hitems⟩ := Option.bind_eq_some_iff.mp hbounds
  obtain rfl := listItems?_eq_some.mp hitems
  have hnumber : ∀ {w n}, (countingByStore change).formOf? w = some .literalInt32 →
      run (field w .value) (countingByStore change) = .ok (.int n) →
      Denotes (countingByStore change) w (.number n) := fun hw hn => .number hw (by decide) hn
  exact {
    form := hloop
    initializer := ⟨_, _, hinit, hdecl, hname, hvalue, hnumber hstart hstartValue⟩
    condition := ⟨_, hcondition, .chain rfl htest hleft (.use huse huseName) hops
      (contains_of_sequence? hsigns) rfl hcomparators hcell (hnumber hfour hfourValue)⟩
    update := ⟨_, hupdate, hnext, ⟨_, htarget, hid, hidName⟩, hcode, _, hchange,
      hnumber hby hbyValue⟩
    body := ⟨_, _, _, hbody, hnodes⟩ }

/-- The numbers that the loops take. -/
theorem takes_countingBy :
    (counterBy 1).Takes 0 [0, 1, 2, 3] ∧ (counterBy 2).Takes 0 [0, 2] := by
  constructor
  · refine .round (by decide) (.round (by decide) (.round (by decide) (.round (by decide) ?_)))
    exact .stop (by decide)
  · exact .round (by decide) (.round (by decide) (.stop (by decide)))

/-- By ones, the loop over the range takes the same numbers. -/
theorem countingByOne_kept : ∃ iterable body,
    run (term (.ref 54)) (countingByStore 1) =
      .ok (.forLoop (Term.store (.text "i")) iterable body false) ∧
    (counterBy 1).Takes 0 [0, 1, 2, 3] ∧ iterable.rangeNumbers? = some [0, 1, 2, 3] := by
  obtain ⟨iterable, body, numbers, hterm, hnumbers, hkept⟩ :=
    counted_loop_kept_iff (isLoop_countingBy 1 (by decide))
  have htakes := takes_countingBy.1
  have heq := (hkept _ htakes).mpr (Counter.kept_of_lt rfl rfl rfl)
  exact ⟨iterable, body, hterm, htakes, heq ▸ hnumbers⟩

/-- By twos, the loop takes every second number, and the loop over the range takes them all. -/
theorem countingByTwo_takes_all : ∃ iterable body,
    run (term (.ref 54)) (countingByStore 2) =
      .ok (.forLoop (Term.store (.text "i")) iterable body false) ∧
    (counterBy 2).Takes 0 [0, 2] ∧ iterable.rangeNumbers? = some [0, 1, 2, 3] := by
  obtain ⟨body, hterm⟩ := (isLoop_countingBy 2 (by decide)).run_term
  exact ⟨_, body, hterm, takes_countingBy.2, rfl⟩

end ProgramTree.Target
