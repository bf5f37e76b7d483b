/-
Iterating over a container.

A container is its own iterator: its cursor is a field of the node, so whoever asks
it for a node moves the cursor on for everybody. `Store.HasCursor` says where the
cursor stands, and each step of an iteration gets one equation in these terms. A
start puts the cursor before the first node, a step hands out the node at the cursor
or, behind the last node, goes back to the start, and one more node leaves the
cursor where it is.

Two results follow. Whatever is done with a container, as long as no two loops over
it are nested, its cursor stays in range, a step never reads beyond the nodes, and a
loop that is left alone meets each node once and in order. Nested loops share the
cursor: the inner one puts it back to the start, so the outer one meets the first
node again and again and comes to no end unless there is no node at all.
-/
import ProgramTree.Cursor
import ProgramTree.Proofs.Filling
import ProgramTree.Proofs.Looking.Moving

namespace ProgramTree

open Look Build

/-! ## Where the cursor stands -/

/-- The container at `a` keeps the nodes `xs` in the list at `l`, and its cursor stands
before the node number `p`. -/
structure Store.HasCursor (s : Store) (a l : Address) (xs : List Value) (p : Nat) : Prop where
  node : s.Pinned a fun n => n.form.isA .nodeList = true ∧ n.get? .nodes = some (.ref l) ∧
    n.get? .position = some (.int p)
  items : s.cell? l = some (.list xs)

namespace Store.HasCursor

variable {s t : Store} {a l : Address} {xs : List Value} {p : Nat}

section

variable (h : s.HasCursor a l xs p)

include h

theorem isContainer : IsContainer s (.ref a) l xs := by
  obtain ⟨n, hn, hisA, hl, -⟩ := h.node
  exact isContainer_of_get? hn hisA hl h.items

theorem run_position : run (field (.ref a) .position) s = .ok (.int p) := by
  obtain ⟨n, hn, -, -, hp⟩ := h.node
  exact run_field_of_get? hn (by simp [Form.computed?]) hp

/-- The cursor can be put anywhere. -/
theorem applyMove (q : Nat) : (s.applyMove ⟨a, q⟩).HasCursor a l xs q := by
  refine ⟨?_, cell?_updateNode h.items (by simp) _⟩
  obtain ⟨n, hn, hisA, hl, -⟩ := h.node
  refine ⟨_, node?_eq_some.mpr (cell?_updateNode_self (node?_eq_some.mp hn) _), hisA, ?_, ?_⟩
  · rw [Node.get?_set, if_neg (by decide), hl]
  · rw [Node.get?_set, if_pos rfl]

/-- One more node leaves the cursor where it is. -/
theorem append (x : Value) : (s.replace l (.list (xs ++ [x]))).HasCursor a l (xs ++ [x]) p :=
  ⟨h.node.replace_list h.items,
    s.cell?_replace_self l _ (Array.getElem?_eq_some_iff.mp h.items).1⟩

/-- A container is not concerned by what leaves its node and its list. -/
theorem elsewhere (ha : t.node? a = s.node? a) (hl : t.cell? l = s.cell? l) :
    t.HasCursor a l xs p := by
  obtain ⟨n, hn, hp⟩ := h.node
  exact ⟨⟨n, ha.trans hn, hp⟩, hl.trans h.items⟩

/-! ## One step -/

theorem look_isNodeList : look (isA (.ref a) .nodeList) s = (.ok true, s) :=
  look_of_still (still_isA _ _) (by rw [run_isA, h.isContainer.isNodeList])

/-- A start puts the cursor before the first node. -/
theorem startIteration_eq : startIteration (.ref a) s = (.ok true, s.applyMove ⟨a, 0⟩) :=
  andThen_of_eq h.look_isNodeList

theorem look_length : look (length (.ref a)) s = (.ok xs.length, s) :=
  look_of_still (still_length _) (Contains.container h.isContainer).run_length

theorem look_position : look (field (.ref a) .position) s = (.ok (.int p), s) :=
  look_of_still (still_field _ _) h.run_position

omit h in
theorem look_atEnd (p n : Nat) (s : Store) :
    look (atEnd (.int p) n) s = (.ok (decide (n ≤ p)), s) := by
  refine look_of_still (still_pure _) ?_
  simp only [atEnd, run_pure, ge_iff_le, Int.ofNat_le]

theorem look_itemAt {q : Nat} {x : Value} (hx : xs[q]? = some x) :
    look (itemAt (.ref a) (.int q)) s = (.ok x, s) := by
  refine look_of_still (still_itemAt _ _) ?_
  have hq : ¬ (q : Int) < 0 := by omega
  simp only [itemAt, run_bind, h.isContainer.run_holder, ok_bind, plainItem, run_cell h.items,
    pick, indexOf, run_pure, if_neg hq, Int.toNat_natCast, hx]
  rfl

/-- Behind the last node there is nothing, and the cursor goes back to the start. -/
theorem advance?_of_ge (hp : xs.length ≤ p) :
    advance? (.ref a) s = (.ok none, s.applyMove ⟨a, 0⟩) := by
  have hend := look_atEnd p xs.length s
  rw [decide_eq_true hp] at hend
  refine (andThen_of_eq h.look_isNodeList).trans ((andThen_of_eq h.look_position).trans ?_)
  exact (andThen_of_eq h.look_length).trans (andThen_of_eq hend)

/-- Before a node, the node is handed out and the cursor goes on. -/
theorem advance?_of_lt {x : Value} (hx : xs[p]? = some x) :
    advance? (.ref a) s = (.ok (some x), s.applyMove ⟨a, p + 1⟩) := by
  have hp : ¬ xs.length ≤ p := not_le.mpr (List.getElem?_eq_some_iff.mp hx).1
  have hend := look_atEnd p xs.length s
  rw [decide_eq_false hp] at hend
  refine (andThen_of_eq h.look_isNodeList).trans ((andThen_of_eq h.look_position).trans ?_)
  refine (andThen_of_eq h.look_length).trans ((andThen_of_eq hend).trans ?_)
  -- The node is fetched after the cursor has gone on.
  exact andThen_of_eq ((h.applyMove (p + 1)).look_itemAt hx)

/-- A step gives the node at the cursor. -/
theorem advance?_eq :
    advance? (.ref a) s = (.ok xs[p]?, s.applyMove ⟨a, if p < xs.length then p + 1 else 0⟩) := by
  cases hx : xs[p]? with
  | some x => rw [h.advance?_of_lt hx, if_pos (List.getElem?_eq_some_iff.mp hx).1]
  | none =>
    have hp := List.getElem?_eq_none_iff.mp hx
    rw [h.advance?_of_ge hp, if_neg (not_lt.mpr hp)]

/-- A bare step gives the node at the cursor, or says that there is none. -/
theorem next_eq :
    next (.ref a) s = (match xs[p]? with
        | some x => .ok x
        | none => .error .exhausted,
      s.applyMove ⟨a, if p < xs.length then p + 1 else 0⟩) := by
  refine (andThen_of_eq h.advance?_eq).trans ?_
  cases xs[p]? <;> rfl

end

end Store.HasCursor

/-- The cursor of a container stands before one of its nodes or behind the last one. -/
def Store.InRange (s : Store) (a l : Address) (xs : List Value) : Prop :=
  ∃ p ≤ xs.length, s.HasCursor a l xs p

/-- A step keeps the cursor in range. -/
theorem Store.HasCursor.inRange_step {s : Store} {a l : Address} {xs : List Value} {p : Nat}
    (h : s.HasCursor a l xs p) :
    (s.applyMove ⟨a, if p < xs.length then p + 1 else 0⟩).InRange a l xs := by
  refine ⟨_, ?_, h.applyMove _⟩
  split <;> omega

/-! ## Histories of one container -/

section Histories

variable (a l : Address)

/-- What is done with a container outside loops or in the body of a loop over it, whatever
comes out of each step: the store before, the nodes that were added and the store after. A
step elsewhere leaves the container's node and its list. -/
inductive Acts : Store → List Value → Store → Prop
  | done (s : Store) : Acts s [] s
  | append {s t u : Store} {r : Except Fault Unit} {x : Value} {ys : List Value} :
    Build.append (.ref a) x s = (r, t) → Acts t ys u → Acts s (x :: ys) u
  | iterate {s t u : Store} {r : Except Fault Bool} {ys : List Value} :
    startIteration (.ref a) s = (r, t) → Acts t ys u → Acts s ys u
  | next {s t u : Store} {r : Except Fault Value} {ys : List Value} :
    Build.next (.ref a) s = (r, t) → Acts t ys u → Acts s ys u
  | elsewhere {s t u : Store} {ys : List Value} :
    t.node? a = s.node? a → t.cell? l = s.cell? l → Acts t ys u → Acts s ys u

/-- The rounds of a loop over a container. The loop comes to its end with a step that hands
out nothing, and it can be left at any time: for the container it is the same whether that
is by a jump or by a fault. -/
inductive Rounds : Store → List Value → Store → Prop
  | left (s : Store) : Rounds s [] s
  | ended {s t : Store} {r : Except Fault (Option Value)} :
    advance? (.ref a) s = (r, t) → (∀ x, r ≠ .ok (some x)) → Rounds s [] t
  | round {s t u w : Store} {x : Value} {ys zs : List Value} :
    advance? (.ref a) s = (.ok (some x), t) → Acts a l t ys u → Rounds u zs w →
      Rounds s (ys ++ zs) w

/-- A history of a container: steps and loops over it, none inside another. -/
inductive History : Store → List Value → Store → Prop
  | done (s : Store) : History s [] s
  | acts {s t u : Store} {ys zs : List Value} :
    Acts a l s ys t → History t zs u → History s (ys ++ zs) u
  | loop {s t u w : Store} {r : Except Fault Bool} {ys zs : List Value} :
    startIteration (.ref a) s = (r, t) → Rounds a l t ys u → History u zs w →
      History s (ys ++ zs) w

/-- The rounds of a loop during which nothing else is done with the container, with the nodes
that the loop has met. -/
inductive Undisturbed : Store → List Value → Store → Prop
  | start {s t : Store} {r : Except Fault Bool} :
    startIteration (.ref a) s = (r, t) → Undisturbed s [] t
  | round {s t u : Store} {x : Value} {zs : List Value} :
    Undisturbed s zs t → advance? (.ref a) t = (.ok (some x), u) → Undisturbed s (zs ++ [x]) u
  | elsewhere {s t u : Store} {zs : List Value} :
    Undisturbed s zs t → u.node? a = t.node? a → u.cell? l = t.cell? l → Undisturbed s zs u

end Histories

variable {s t : Store} {a l : Address} {xs ys zs : List Value} {p : Nat}

namespace Store.InRange

theorem startIteration (h : s.InRange a l xs) {r : Except Fault Bool}
    (hstart : Build.startIteration (.ref a) s = (r, t)) : t.HasCursor a l xs 0 := by
  obtain ⟨p, -, hp⟩ := h
  rw [hp.startIteration_eq] at hstart
  cases hstart
  exact hp.applyMove 0

theorem advance? (h : s.InRange a l xs) {r : Except Fault (Option Value)}
    (hstep : Build.advance? (.ref a) s = (r, t)) : t.InRange a l xs := by
  obtain ⟨p, -, hp⟩ := h
  rw [hp.advance?_eq] at hstep
  cases hstep
  exact hp.inRange_step

theorem next (h : s.InRange a l xs) {r : Except Fault Value}
    (hstep : Build.next (.ref a) s = (r, t)) : t.InRange a l xs := by
  obtain ⟨p, -, hp⟩ := h
  rw [hp.next_eq] at hstep
  cases hstep
  exact hp.inRange_step

theorem append (h : s.InRange a l xs) {x : Value} {r : Except Fault Unit}
    (happend : Build.append (.ref a) x s = (r, t)) : t.InRange a l (xs ++ [x]) := by
  obtain ⟨p, hle, hp⟩ := h
  rw [append_eq hp.isContainer] at happend
  cases happend
  exact ⟨p, hle.trans (by simp), hp.append x⟩

end Store.InRange

/-- Single steps keep the cursor in range and add their nodes at the end. -/
theorem Acts.inRange (h : Acts a l s ys t) (hs : s.InRange a l xs) : t.InRange a l (xs ++ ys) := by
  induction h generalizing xs with
  | done s => rwa [List.append_nil]
  | append happend _ ih =>
    have hrest := ih (hs.append happend)
    rwa [List.append_assoc] at hrest
  | iterate hstart _ ih => exact ih ⟨0, Nat.zero_le _, hs.startIteration hstart⟩
  | next hnext _ ih => exact ih (hs.next hnext)
  | elsewhere ha hl _ ih =>
    obtain ⟨p, hle, hp⟩ := hs
    exact ih ⟨p, hle, hp.elsewhere ha hl⟩

theorem Rounds.inRange (h : Rounds a l s ys t) (hs : s.InRange a l xs) :
    t.InRange a l (xs ++ ys) := by
  induction h generalizing xs with
  | left s => rwa [List.append_nil]
  | ended hstep _ =>
    rw [List.append_nil]
    exact hs.advance? hstep
  | round hstep hacts _ ih =>
    rw [← List.append_assoc]
    exact ih (hacts.inRange (hs.advance? hstep))

/-- A whole history keeps the cursor in range and adds its nodes at the end. -/
theorem History.inRange (h : History a l s ys t) (hs : s.InRange a l xs) :
    t.InRange a l (xs ++ ys) := by
  induction h generalizing xs with
  | done s => rwa [List.append_nil]
  | acts hacts _ ih =>
    rw [← List.append_assoc]
    exact ih (hacts.inRange hs)
  | loop hstart hrounds _ ih =>
    rw [← List.append_assoc]
    exact ih (hrounds.inRange ⟨0, Nat.zero_le _, hs.startIteration hstart⟩)

/-- A loop that is left alone has its cursor behind the nodes that it has met. -/
theorem Undisturbed.hasCursor (h : Undisturbed a l s zs t) (hs : s.InRange a l xs) :
    zs <+: xs ∧ t.HasCursor a l xs zs.length := by
  induction h with
  | start hstart => exact ⟨List.nil_prefix, hs.startIteration hstart⟩
  | round _ hstep ih =>
    obtain ⟨⟨rest, rfl⟩, hcursor⟩ := ih
    cases rest with
    | nil =>
      rw [hcursor.advance?_of_ge (by simp)] at hstep
      cases hstep
    | cons y rest =>
      rw [hcursor.advance?_of_lt (x := y) (by simp)] at hstep
      cases hstep
      refine ⟨⟨rest, by simp⟩, ?_⟩
      rw [List.length_append]
      exact hcursor.applyMove _
  | elsewhere _ ha hl ih => exact ⟨ih.1, ih.2.elsewhere ha hl⟩

/-- **Iterating safely.** Whatever is done with a container whose cursor is in range, with no
loop over it inside another: the cursor stays in range, and the nodes are the old ones and
those added since. From there a bare step gives the node at the cursor and goes on, or says
that there is none exactly behind the last node and goes back to the start. A loop that is
left alone from there on meets the nodes one by one in their order: its next step gives the
first node that it has not met, and it ends exactly when it has met them all. -/
theorem history_iterates (hs : s.InRange a l xs) (h : History a l s ys t) :
    ∃ q ≤ (xs ++ ys).length, t.HasCursor a l (xs ++ ys) q ∧
      (∀ x, (xs ++ ys)[q]? = some x →
        ∃ u, next (.ref a) t = (.ok x, u) ∧ u.HasCursor a l (xs ++ ys) (q + 1)) ∧
      (q = (xs ++ ys).length →
        ∃ u, next (.ref a) t = (.error .exhausted, u) ∧ u.HasCursor a l (xs ++ ys) 0) ∧
      ∀ zs u, Undisturbed a l t zs u →
        zs <+: xs ++ ys ∧ (advance? (.ref a) u).1 = .ok (xs ++ ys)[zs.length]? ∧
          ((advance? (.ref a) u).1 = .ok none ↔ zs = xs ++ ys) := by
  have hrange := h.inRange hs
  obtain ⟨q, hq, hcursor⟩ := id hrange
  refine ⟨q, hq, hcursor, fun x hx => ?_, fun hend => ?_, fun zs u hloop => ?_⟩
  · refine ⟨_, ?_, hcursor.applyMove (q + 1)⟩
    rw [hcursor.next_eq, hx, if_pos (List.getElem?_eq_some_iff.mp hx).1]
  · refine ⟨_, ?_, hcursor.applyMove 0⟩
    rw [hcursor.next_eq, List.getElem?_eq_none_iff.mpr hend.ge, if_neg (not_lt.mpr hend.ge)]
  · obtain ⟨hmet, hu⟩ := hloop.hasCursor hrange
    have hstep := congrArg Prod.fst hu.advance?_eq
    refine ⟨hmet, hstep, ?_⟩
    rw [hstep, Except.ok.injEq, List.getElem?_eq_none_iff]
    exact ⟨fun hle => hmet.eq_of_length_le hle, fun heq => by rw [heq]⟩

/-- A store with an empty block and two statements that are not in it yet. -/
def blockAndJumps : Store :=
  (do
    let _ ← construct .block [] []
    let _ ← construct .breakStmt [] []
    construct .breakStmt [] [] : Build Address) .initial |>.2

/-- A statement is added, a loop is left in its first round after adding the other one, and
the next node is asked for: a new loop still meets both. -/
theorem abandonedLoop_iterates :
    blockAndJumps.InRange 21 22 [] ∧
      ∃ t, History 21 22 blockAndJumps [.ref 23, .ref 24] t ∧
        ∃ q ≤ 2, t.HasCursor 21 22 [.ref 23, .ref 24] q ∧
          ∀ zs u, Undisturbed 21 22 t zs u → zs <+: [.ref 23, .ref 24] ∧
            ((advance? (.ref 21) u).1 = .ok none ↔ zs = [.ref 23, .ref 24]) := by
  have h₀ : blockAndJumps.HasCursor 21 22 [] 0 := ⟨⟨_, rfl, rfl, rfl, rfl⟩, rfl⟩
  have h₁ := h₀.append (.ref 23)
  have h₂ := (h₁.applyMove 0).applyMove 1
  have h₃ := h₂.append (.ref 24)
  have hbody := Acts.append (append_eq h₂.isContainer (.ref 24)) (.done (a := 21) (l := 22) _)
  have hloop := Rounds.round ((h₁.applyMove 0).advance?_of_lt rfl) hbody (.left _)
  have hnext := Acts.next (h₃.next_eq.trans rfl) (.done (a := 21) (l := 22) _)
  have hhistory : History 21 22 blockAndJumps [.ref 23, .ref 24] _ :=
    .acts (.append (append_eq h₀.isContainer (.ref 23)) (.done _))
      (.loop h₁.startIteration_eq hloop (.acts hnext (.done _)))
  have hrange : blockAndJumps.InRange 21 22 [] := ⟨0, le_rfl, h₀⟩
  obtain ⟨q, hq, hcursor, -, -, hmeets⟩ := history_iterates hrange hhistory
  exact ⟨hrange, _, hhistory, q, hq, hcursor, fun zs u hzs =>
    ⟨(hmeets zs u hzs).1, (hmeets zs u hzs).2.2⟩⟩

/-! ## Loops inside loops -/

/-- A loop's body that only notes the pair of nodes it is in. -/
def noting (x y : Value) : Build (Value × Value) :=
  pure (x, y)

/-- All pairs of nodes, the first nodes in their order and for each of them the second ones. -/
def allPairs (xs : List Value) : List (Value × Value) :=
  xs.flatMap fun x => xs.map fun y => (x, y)

/-- The first node with all nodes again and again. -/
def firstWithAll (xs : List Value) (wanted : Nat) : List (Value × Value) :=
  match xs with
  | [] => []
  | x :: _ => (List.range wanted).map fun i => (x, xs.getD (i % xs.length) x)

/-- The inner loop goes over the nodes that are left, as far as they are wanted. If more are
wanted it comes to its end, and the cursor is back at the start. -/
theorem innerLoop_eq {front rest : List Value} (outer : Value) (wanted : Nat)
    (made : List (Value × Value)) (h : s.HasCursor a l (front ++ rest) front.length) :
    ∃ t, innerLoop (.ref a) noting outer wanted made s =
        (.ok (made ++ (rest.take wanted).map fun y => (outer, y)), t) ∧
      (rest.length < wanted → t.HasCursor a l (front ++ rest) 0) ∧
      ∃ q, t.HasCursor a l (front ++ rest) q := by
  induction wanted generalizing s front rest made with
  | zero => exact ⟨s, by simp [innerLoop]; rfl, by simp, _, h⟩
  | succ wanted ih =>
    cases rest with
    | nil =>
      refine ⟨_, ?_, fun _ => h.applyMove 0, _, h.applyMove 0⟩
      refine (andThen_of_eq (h.advance?_of_ge (by simp))).trans ?_
      simp
      rfl
    | cons y rest =>
      have hnext : (s.applyMove ⟨a, front.length + 1⟩).HasCursor a l ((front ++ [y]) ++ rest)
          (front ++ [y]).length := by
        simpa using h.applyMove (front.length + 1)
      obtain ⟨t, ht, hend, q, hq⟩ := ih (made ++ [(outer, y)]) hnext
      rw [List.append_assoc, List.singleton_append] at hend hq
      refine ⟨t, ?_, fun hlt => hend (Nat.lt_of_succ_lt_succ hlt), q, hq⟩
      refine (andThen_of_eq (h.advance?_of_lt (x := y) (by simp))).trans ?_
      refine (andThen_of_eq (w := (outer, y)) rfl).trans (ht.trans ?_)
      simp

/-- The pairs with the first node go on where a whole number of rounds ended. -/
theorem firstWithAll_append {x : Value} {rest : List Value} {m k : Nat}
    (hm : (x :: rest).length ∣ m) (hk : k ≤ (x :: rest).length) :
    firstWithAll (x :: rest) m ++ ((x :: rest).take k).map (fun y => (x, y)) =
      firstWithAll (x :: rest) (m + k) := by
  obtain ⟨c, rfl⟩ := hm
  simp only [firstWithAll, List.range_add, List.map_append, List.map_map, List.append_cancel_left_eq]
  refine List.ext_getElem (by simpa using hk) fun i hi hi' => ?_
  have hik : i < k := by simpa using hi'
  have hmod : ((x :: rest).length * c + i) % (x :: rest).length = i := by
    rw [Nat.mul_add_mod, Nat.mod_eq_of_lt (lt_of_lt_of_le hik hk)]
  simp only [List.getElem_map, List.getElem_take, List.getElem_range, Function.comp_apply, hmod]
  rw [List.getD_eq_getElem?_getD, List.getElem?_eq_getElem (lt_of_lt_of_le hik hk)]
  rfl

/-- Every round of the outer loop begins with the cursor at the start, so it gets the first
node again. The induction is on the rounds; those done so far were whole. -/
theorem outerLoop_eq {x : Value} {rest : List Value} {wanted rounds m : Nat}
    (hm : (x :: rest).length ∣ m) (hle : m ≤ wanted) (hrounds : wanted < m + rounds)
    (h : s.HasCursor a l (x :: rest) 0) :
    (outerLoop (.ref a) noting wanted rounds (firstWithAll (x :: rest) m) s).1 =
      .ok (firstWithAll (x :: rest) wanted) := by
  have hlen : ∀ k, (firstWithAll (x :: rest) k).length = k := by simp [firstWithAll]
  induction rounds generalizing s m with
  | zero => omega
  | succ rounds ih =>
    have hfirst := h.applyMove 1
    have hstart : Store.HasCursor _ a l ([] ++ x :: rest) ([] : List Value).length :=
      hfirst.applyMove 0
    obtain ⟨t, ht, hend, -⟩ := innerLoop_eq x (wanted - m) (firstWithAll (x :: rest) m) hstart
    have hround : outerLoop (.ref a) noting wanted (rounds + 1) (firstWithAll (x :: rest) m) s =
        (let made := firstWithAll (x :: rest) m ++
            ((x :: rest).take (wanted - m)).map fun y => (x, y)
          if wanted ≤ made.length then pure made
          else outerLoop (.ref a) noting wanted rounds made : Build (List (Value × Value))) t := by
      refine (andThen_of_eq (h.advance?_of_lt (x := x) rfl)).trans ?_
      refine (andThen_of_eq hfirst.startIteration_eq).trans ?_
      rw [hlen]
      exact andThen_of_eq ht
    rw [hround]
    by_cases hlast : wanted - m ≤ (x :: rest).length
    · rw [firstWithAll_append hm hlast, Nat.add_sub_cancel' hle]
      dsimp only
      rw [if_pos (hlen wanted).ge]
      rfl
    · have hall : (x :: rest).take (wanted - m) = (x :: rest).take (x :: rest).length := by
        rw [List.take_length, List.take_of_length_le (by omega)]
      rw [hall, firstWithAll_append hm le_rfl]
      dsimp only
      rw [if_neg (by rw [hlen]; omega)]
      have hpos : 0 < (x :: rest).length := Nat.succ_pos _
      exact ih (Nat.dvd_add hm (Nat.dvd_refl _)) (by omega) (by omega) (hend (by omega))

/-- What two nested loops over a container meet. -/
theorem nested_eq (hs : s.InRange a l xs) (wanted : Nat) :
    (nested (.ref a) noting wanted s).1 = .ok (firstWithAll xs wanted) := by
  obtain ⟨p, -, hp⟩ := hs
  have hstart := hp.startIteration_eq
  have hzero := hp.applyMove 0
  rw [nested, andThen_of_eq hstart]
  cases xs with
  | nil =>
    have hend := hzero.advance?_of_ge (le_refl 0)
    exact congrArg Prod.fst (andThen_of_eq hend)
  | cons x rest => exact outerLoop_eq (m := 0) (Nat.dvd_zero _) (Nat.zero_le _) (by omega) hzero

/-- **Nested loops.** Two nested loops over one container pair its first node with all its
nodes again and again, for as long as anybody listens. So they come to an end and meet all
pairs of nodes in order exactly if the container has no nodes. -/
theorem nested_meets_allPairs_iff (hs : s.InRange a l xs) :
    (∀ wanted, (nested (.ref a) noting wanted s).1 = .ok (firstWithAll xs wanted)) ∧
      ((∀ wanted, (nested (.ref a) noting wanted s).1 = .ok ((allPairs xs).take wanted)) ↔
        xs = []) := by
  refine ⟨nested_eq hs, fun hall => ?_, fun hnil wanted => ?_⟩
  · -- Listening for one pair more than there are tells the two apart.
    have hlonger := (nested_eq hs ((allPairs xs).length + 1)).symm.trans (hall _)
    rw [Except.ok.injEq, List.take_of_length_le (Nat.le_succ _)] at hlonger
    cases xs with
    | nil => rfl
    | cons x rest => simpa [firstWithAll] using congrArg List.length hlonger
  · subst hnil
    rw [nested_eq hs]
    simp [firstWithAll, allPairs]

/-- Of a block without nodes nothing is met. -/
theorem emptyBlock_meets_allPairs :
    blockAndJumps.InRange 21 22 [] ∧
      ∀ wanted, (nested (.ref 21) noting wanted blockAndJumps).1 =
        .ok ((allPairs []).take wanted) := by
  have hrange : blockAndJumps.InRange 21 22 [] := ⟨0, le_rfl, ⟨⟨_, rfl, rfl, rfl, rfl⟩, rfl⟩⟩
  exact ⟨hrange, (nested_meets_allPairs_iff hrange).2.mpr rfl⟩

/-- A block with one statement. -/
def jumpInBlock : Build Value := do
  let block ← construct .block [] []
  let _ ← construct .breakStmt [] [(.parent, .ref block)]
  return .ref block

/-- Nested loops over a block with one statement meet it with itself again and again, where
there is one pair to meet. -/
theorem jumpInBlock_met_again :
    ((jumpInBlock >>= fun block => nestedPairs block 8) .initial).1.toOption =
        some (List.replicate 8 ("BreakStmt", "BreakStmt")) ∧
      ((jumpInBlock >>= fun block => nested block noting 8) .initial).1.toOption ≠
        some (allPairs [.ref 23]) := by
  decide +kernel

end ProgramTree
