/-
What the rules of a conversion make.

A rule makes a term around the conversions of the nodes inside. Whatever those are, what the rule
makes itself is in order: each part that it makes fits its place, names are bound or read as their
places ask, and no body is empty. `Shaped` says this of a term down to the conversions inside,
which may stand anywhere, and of those in turn.

Each rule has its own statement here, that all it gives is shaped (`Look.Yields`), and
`shaped_of_toDepth` puts them together.
-/
import ProgramTree.Proofs.Conversion
import ProgramTree.Proofs.Terms.Parts

namespace ProgramTree

namespace Look

/-! ## What walks give -/

section Yields

variable {β : Type} {s : Store} {Q : β → Prop}

/-- A walk gives as many outcomes as it has items, and each passes the test. -/
theorem yields_walkFrom {v : Value} {body : Value → Look β} (hb : ∀ w, Yields s (body w) Q)
    (i : Nat) (slots : List (Look Value)) : Yields s (walkFrom v body i slots) fun ys =>
      ys.length = slots.length ∧ ∀ y ∈ ys, Q y := by
  induction slots generalizing i with
  | nil => exact yields_after fun _ => yields_pure ⟨rfl, by simp⟩
  | cons x rest ih =>
    refine Yields.bind (P := Q) ?_ fun y hy => (ih (i + 1)).bind fun ys hys => yields_pure ?_
    · exact (yields_after hb).rescue fun e => yields_after fun _ => yields_fail e
    · refine ⟨congrArg Nat.succ hys.1, fun z hz => ?_⟩
      rcases List.mem_cons.mp hz with rfl | hz
      · exact hy
      · exact hys.2 z hz

theorem yields_forEach {v : Value} {body : Value → Look β} (hb : ∀ w, Yields s (body w) Q) :
    Yields s (forEach v body) fun ys => ∀ y ∈ ys, Q y :=
  yields_after fun slots => (yields_walkFrom hb 0 slots).mono fun _ h => h.2

/-- What has a length and counts as true is not empty. -/
theorem run_length_of_truthy {v : Value} {a : Address} (hv : v = .ref a)
    (hn : ∀ n, s.nodeOf? v = some n → n.form.isA .nodeList = true)
    (ht : run (truthy v) s = .ok true) : ∃ n, run (length v) s = .ok n ∧ n ≠ 0 := by
  subst hv
  have heq : run (truthy (.ref a)) s = run (do return (← length (.ref a)) != 0) s := by
    simp only [truthy, run_bind, run_node?, ok_bind]
    cases hnode : s.nodeOf? (.ref a) with
    | none => simp only [run_bind]
    | some n => simp only [hn n hnode, if_true, run_bind]
  rw [heq, run_bind] at ht
  obtain ⟨n, hlen, h⟩ := bind_eq_ok.mp ht
  exact ⟨n, hlen, by simpa using h⟩

/-- A walk over something that counts as true meets something. -/
theorem slots_ne_nil {v : Value} {slots : List (Look Value)} (ht : run (truthy v) s = .ok true)
    (h : run (Look.slots v) s = .ok slots) : slots ≠ [] := by
  simp only [Look.slots, run_bind, run_isA, ok_bind, run_ite] at h
  by_cases hc : ((s.formOf? v).any fun g => g.isA .nodeList) = true
  · rw [if_pos hc] at h
    obtain ⟨a, hv, -⟩ : ∃ a, v = .ref a ∧ a < s.cells.size := by
      obtain ⟨g, hform, -⟩ := (Option.any_eq_true _ _).mp hc
      exact Store.ref_of_formOf? hform
    have hn : ∀ n, s.nodeOf? v = some n → n.form.isA .nodeList = true := fun n hn => by
      simpa [Store.formOf?, hn] using hc
    obtain ⟨n, hlen, hne⟩ := run_length_of_truthy hv hn ht
    obtain ⟨nodes, hholder, hplain⟩ := bind_eq_ok.mp (by simpa only [length, run_bind] using hlen)
    simp only [run_rescue, hlen, ok_bind, hholder] at h
    obtain ⟨b, -, h⟩ := bind_eq_ok.mp h
    cases b with
    | true =>
      simp only [if_true] at h
      obtain ⟨xs, hxs, h⟩ := bind_eq_ok.mp h
      obtain rfl := Except.ok.inj h
      rw [run_plainLength hxs] at hplain
      obtain rfl := Except.ok.inj hplain
      simpa using hne
    | false =>
      simp only [Bool.false_eq_true, if_false, run_pure] at h
      obtain rfl := Except.ok.inj h
      simpa using hne
  · rw [if_neg hc] at h
    obtain ⟨xs, hxs, h⟩ := bind_eq_ok.mp h
    obtain rfl := Except.ok.inj h
    suffices hne : xs ≠ [] by simpa using hne
    cases v with
    | text t =>
      obtain rfl := Except.ok.inj hxs
      have htrue : t.isEmpty = false := by simpa [truthy] using ht
      intro hnil
      have hchars : t.toList = [] := by simpa using hnil
      simp [String.toList_eq_nil_iff.mp hchars] at htrue
    | ref a =>
      -- A node that is no container has no items, so this is some other collection.
      have hn : ∀ n, s.nodeOf? (.ref a) = some n → n.form.isA .nodeList = true := by
        intro n hn
        simp only [plainItems, run_bind, run_cell (Store.node?_eq_some.mp hn), ok_bind] at hxs
        cases hxs
      obtain ⟨n, hlen, hne⟩ := run_length_of_truthy rfl hn ht
      simp only [length, run_bind, run_holder_of_not (by simpa using hc), ok_bind,
        run_plainLength hxs] at hlen
      obtain rfl := Except.ok.inj hlen
      simpa using hne
    | _ =>
      simp only [plainItems, run_bind] at hxs
      obtain ⟨_, -, hxs⟩ := bind_eq_ok.mp hxs
      cases hxs

theorem yields_forEach_of_truthy {v : Value} {body : Value → Look β}
    (ht : run (truthy v) s = .ok true) (hb : ∀ w, Yields s (body w) Q) :
    Yields s (forEach v body) fun ys => ys ≠ [] ∧ ∀ y ∈ ys, Q y := by
  refine Yields.bind (P := fun slots => slots ≠ []) (fun slots h => slots_ne_nil ht h)
    fun slots hne => (yields_walkFrom hb 0 slots).mono fun ys h => ⟨?_, h.2⟩
  intro hnil
  have hlen := h.1
  rw [hnil] at hlen
  exact hne (List.length_eq_zero_iff.mp hlen.symm)

/-- A field that is there and counts as true. -/
theorem yields_truthyField? (v : Value) (f : Field) : Yields s (truthyField? v f) fun o =>
    ∀ w, o = some w → run (truthy w) s = .ok true := by
  refine yields_after fun o => ?_
  cases o with
  | none => exact yields_pure (by simp)
  | some w =>
    refine Yields.bind (P := fun b => run (truthy w) s = .ok b) (fun b hb => hb) fun b hb => ?_
    cases b with
    | false => exact yields_pure (by simp)
    | true => exact yields_pure fun w' hw => Option.some.inj hw ▸ hb

end Yields

end Look

namespace Target

open Look ProgramTree.Target.Convert

/-! ## Shaped terms -/

/-- Whether a place is one where conversions stand that were told their place in the source. -/
def Place.settles (p : Place) : Bool :=
  p = .parameter || p = .parameters || p = .value

/-- Whether a term is made as its place asks, leaving its parts apart: what is bound is marked so,
what is not is not, no body is empty, and of statements only functions know their place in the
source. What is guarded is made by itself only, as is a function that does not know its place. -/
def Place.keeps (p : Place) : Term → Bool
  | .name _ c | .tuple _ c => (c = .store) = p.binds
  | .list _ | .starred _ => !p.binds
  | .tryStmt body _ _ => p = .loose && !body.isEmpty
  | .assign _ _ placed => !placed || p.settles
  | .forLoop _ _ body placed | .asyncFunctionDef _ _ body _ placed =>
    !body.isEmpty && (!placed || p.settles)
  | .functionDef _ _ body _ placed => !body.isEmpty && (placed || p = .loose || p.settles)
  | t => t.body?.all fun body => !body.isEmpty

/-- How a conversion stands in a term: as it is, or knowing its place in the source. -/
def Settled (c t : Term) : Prop :=
  t = c ∨ c.placed = .ok t ∨ placedArguments c = .ok t

/-- A term is made by rules around conversions, and these are so, too. -/
inductive Shaped (s : Store) : Place → Term → Prop
  | made {p : Place} {t : Term} (ha : p.admits t = true) (hk : p.keeps t = true)
      (hp : ∀ e ∈ t.parts, Shaped s e.1 e.2) : Shaped s p t
  | converted {p : Place} {c t : Term} {depth : Nat} {w : Value}
      (h : run (toDepth depth w) s = .ok c) (hc : Shaped s .loose c) (ht : Settled c t)
      (hq : t = c ∨ p.settles = true) (hn : p = .target → ∀ id ctx, t ≠ .name id ctx) :
    Shaped s p t

/-- A term is the conversion of a node, and shaped. -/
def Converted (s : Store) (t : Term) : Prop :=
  ∃ depth w, run (toDepth depth w) s = .ok t ∧ Shaped s .loose t

/-- A body: statements, at least one of them. -/
def Filled (s : Store) (body : List Term) : Prop :=
  body ≠ [] ∧ ∀ t ∈ body, Shaped s .statement t

section Shaped

variable {s : Store} {p q : Place} {c t : Term} {ts : List Term}

section

variable (ha : p.admits t = true)

include ha

theorem Shaped.atom (hk : p.keeps t = true) (hp : t.parts = []) : Shaped s p t :=
  .made ha hk (by simp [hp])

theorem Shaped.one (hk : p.keeps t = true) (hp : t.parts = [(q, c)]) (h : Shaped s q c) :
    Shaped s p t := by
  refine .made ha hk ?_
  rw [hp, List.forall_mem_singleton]
  exact h

theorem Shaped.two {q' : Place} {c' : Term} (hk : p.keeps t = true)
    (hp : t.parts = [(q, c), (q', c')]) (h : Shaped s q c) (h' : Shaped s q' c') :
    Shaped s p t := by
  refine .made ha hk ?_
  rw [hp, List.forall_mem_cons, List.forall_mem_singleton]
  exact ⟨h, h'⟩

theorem Shaped.three {q' q'' : Place} {c' c'' : Term} (hk : p.keeps t = true)
    (hp : t.parts = [(q, c), (q', c'), (q'', c'')]) (h : Shaped s q c) (h' : Shaped s q' c')
    (h'' : Shaped s q'' c'') : Shaped s p t := by
  refine .made ha hk ?_
  rw [hp, List.forall_mem_cons, List.forall_mem_cons, List.forall_mem_singleton]
  exact ⟨h, h', h''⟩

theorem Shaped.each (hk : p.keeps t = true) (hp : t.parts = ts.map (q, ·))
    (h : ∀ c ∈ ts, Shaped s q c) : Shaped s p t := by
  refine .made ha hk ?_
  rw [hp, List.forall_mem_map]
  exact h

theorem Shaped.first {q' : Place} (hk : p.keeps t = true) (hp : t.parts = (q, c) :: ts.map (q', ·))
    (h : Shaped s q c) (hs : ∀ c ∈ ts, Shaped s q' c) : Shaped s p t := by
  refine .made ha hk ?_
  rw [hp, List.forall_mem_cons, List.forall_mem_map]
  exact ⟨h, hs⟩

end

theorem Converted.shaped (h : Converted s t) (p : Place) (hp : p ≠ .target) : Shaped s p t := by
  obtain ⟨depth, w, hrun, hs⟩ := h
  exact .converted hrun hs (.inl rfl) (.inl rfl) fun h => absurd h hp

/-- What is bound is made into a name that is bound, if it is a name. -/
theorem Converted.bound (h : Converted s t) : Shaped s .target t.bound := by
  cases t with
  | name id c => exact .atom rfl rfl rfl
  | _ =>
    obtain ⟨depth, w, hrun, hs⟩ := h
    exact .converted hrun hs (.inl rfl) (.inl rfl) fun _ _ _ => by simp [Term.bound]

theorem shaped_load (id : Doc) (p : Place) (ha : p.admits (.name id .load) = true)
    (hk : p.binds = false) : Shaped s p (.name id .load) :=
  .atom ha (by simp [Place.keeps, hk]) rfl

theorem shaped_store (id : Doc) : Shaped s .target (.store id) :=
  .atom rfl rfl rfl

theorem shaped_constant (d : Doc) (p : Place) (ha : p.admits (.constant d) = true) :
    Shaped s p (.constant d) :=
  .atom ha rfl rfl

theorem shaped_absent : Shaped s .optional .absent :=
  .atom rfl rfl rfl

theorem shaped_call {f : Term} {args keywords : List Term} (hf : Shaped s .value f)
    (ha : ∀ a ∈ args, Shaped s .value a) (hk : ∀ a ∈ keywords, Shaped s .keyword a) (p : Place)
    (hp : p.admits (.call f args keywords) = true) : Shaped s p (.call f args keywords) := by
  refine .made hp rfl ?_
  simp only [Term.parts, List.forall_mem_cons, List.forall_mem_append, List.forall_mem_map]
  exact ⟨hf, ha, hk⟩

theorem shaped_callOf {id : String} {args : List Term} (ha : ∀ a ∈ args, Shaped s .value a)
    (p : Place) (hp : p.admits (.callOf id args) = true) : Shaped s p (.callOf id args) :=
  shaped_call (shaped_load _ _ rfl rfl) ha (by simp) p hp

/-! ## Parts of shaped terms -/

/-- Knowing its place in the source changes no part of a term. -/
theorem placed_parts (h : c.placed = .ok t) :
    t.parts = c.parts ∧ t.className = c.className ∧ t.body? = c.body? := by
  cases c with
  | absent | items => cases h
  | _ =>
    obtain rfl := Except.ok.inj h
    exact ⟨rfl, rfl, rfl⟩

theorem placed_keeps (h : c.placed = .ok t) (hp : p.settles = true) : p.keeps t = p.keeps c := by
  cases c with
  | absent | items => cases h
  | assign | forLoop | functionDef | asyncFunctionDef =>
    obtain rfl := Except.ok.inj h
    simp [Place.keeps, hp]
  | _ =>
    obtain rfl := Except.ok.inj h
    rfl

theorem placed_placed {u : Term} (h : c.placed = .ok t) (hu : t.placed = .ok u) : u = t := by
  cases c with
  | absent | items => cases h
  | _ =>
    obtain rfl := Except.ok.inj h
    exact (Except.ok.inj hu).symm

theorem eq_name_of_placed {id : Doc} {ctx : Context} (h : c.placed = .ok (.name id ctx)) :
    c = .name id ctx := by
  cases c with
  | name => exact Except.ok.inj h
  | _ => cases h

/-- Parameters know their places already. -/
theorem placed_of_placedArguments {u : Term} (h : placedArguments c = .ok t)
    (hu : t.placed = .ok u) : t = c ∨ u = t := by
  cases c with
  | arguments args =>
    obtain ⟨args', -, h⟩ := bind_eq_ok.mp h
    cases h
    exact .inr (Except.ok.inj hu).symm
  | call f args keywords =>
    obtain ⟨args', -, h⟩ := bind_eq_ok.mp h
    cases h
    exact .inr (Except.ok.inj hu).symm
  | lambda | functionDef | asyncFunctionDef => cases h
  | _ => exact .inl (Except.ok.inj h).symm

theorem Settled.placed {u : Term} (h : Settled c t) (hu : t.placed = .ok u) : Settled c u := by
  rcases h with rfl | h | h
  · exact .inr (.inl hu)
  · rw [placed_placed h hu]
    exact .inr (.inl h)
  · rcases placed_of_placedArguments h hu with rfl | rfl
    · exact .inr (.inl hu)
    · exact .inr (.inr h)

theorem Shaped.placed {u : Term} (h : Shaped s p t) (hu : t.placed = .ok u)
    (hq : p.settles = true) : Shaped s p u := by
  obtain ⟨hparts, hclass, -⟩ := placed_parts hu
  cases h with
  | made ha hk hp =>
    refine .made ?_ (placed_keeps hu hq ▸ hk) (hparts ▸ hp)
    rw [Place.admits, hclass]
    exact ha
  | converted hrun hc ht _ hn =>
    refine .converted hrun hc (ht.placed hu) (.inr hq) fun hp id ctx heq => ?_
    exact hn hp id ctx (eq_name_of_placed (heq ▸ hu))

/-- The parts of a conversion that stands in a term come from those of the conversion, and know
their places if the conversion is a list of parameters. -/
theorem Settled.part (h : Settled c t) {e : Place × Term} (he : e ∈ t.parts) :
    e ∈ c.parts ∨ e.1.settles = true ∧ ∃ a, (e.1, a) ∈ c.parts ∧ a.placed = .ok e.2 := by
  rcases h with rfl | h | h
  · exact .inl he
  · exact .inl ((placed_parts h).1 ▸ he)
  · cases c with
    | arguments args =>
      obtain ⟨args', hargs, h⟩ := bind_eq_ok.mp h
      cases h
      obtain ⟨a', ha', rfl⟩ := List.mem_map.mp he
      obtain ⟨a, ha, hplaced⟩ := mapM_inv hargs a' ha'
      exact .inr ⟨rfl, a, List.mem_map_of_mem ha, hplaced⟩
    | call f args keywords =>
      obtain ⟨args', hargs, h⟩ := bind_eq_ok.mp h
      cases h
      simp only [Term.parts, List.mem_cons, List.mem_append, List.mem_map] at he ⊢
      rcases he with rfl | ⟨a', ha', rfl⟩ | ⟨k, hk, rfl⟩
      · exact .inl (.inl rfl)
      · obtain ⟨a, ha, hplaced⟩ := mapM_inv hargs a' ha'
        exact .inr ⟨rfl, a, .inr (.inl ⟨a, ha, rfl⟩), hplaced⟩
      · exact .inl (.inr (.inr ⟨k, hk, rfl⟩))
    | lambda | functionDef | asyncFunctionDef => cases h
    | _ =>
      obtain rfl := Except.ok.inj h
      exact .inl he

/-- The parts of a shaped term are shaped. -/
theorem Shaped.part (h : Shaped s p t) {e : Place × Term} (he : e ∈ t.parts) :
    Shaped s e.1 e.2 := by
  induction h generalizing e with
  | made _ _ hp => exact hp e he
  | converted _ _ ht _ _ ih =>
    rcases ht.part he with he | ⟨hq, a, ha, hplaced⟩
    · exact ih he
    · exact (ih ha).placed hplaced hq

/-- All that a shaped term has is shaped. -/
theorem Shaped.has {u : Term} (h : Shaped s .loose t) (hu : t.Has p u) : Shaped s p u := by
  induction hu with
  | whole => exact h
  | part _ hc ih => exact ih.part hc

theorem contribution_cases (c : Term) : (∃ ts, c = .items ts ∧ contribution c = ts) ∨
    contribution c = [c] ∨ contribution c = [.expr c] ∨ contribution c = [.pass] := by
  cases c <;> simp [contribution, Term.sort]

/-- The statements that a conversion adds to a body. -/
theorem Converted.contribution (h : Converted s c) :
    ∀ t ∈ contribution c, Shaped s .statement t := by
  rcases contribution_cases c with ⟨ts, rfl, heq⟩ | heq | heq | heq
  · rw [heq]
    obtain ⟨_, _, _, hs⟩ := h
    exact fun t ht => hs.part (e := (.statement, t)) (List.mem_map_of_mem ht)
  · rw [heq, List.forall_mem_singleton]
    exact h.shaped _ (by decide)
  · rw [heq, List.forall_mem_singleton]
    exact .one rfl rfl rfl (h.shaped .value (by decide))
  · rw [heq, List.forall_mem_singleton]
    exact .atom rfl rfl rfl

end Shaped

/-! ## Parts of rules -/

namespace Convert

section Rules

variable {s : Store} {visit : Visit} {v w : Value} {f : Field}

/-- Stand-ins are constants and names that are read. -/
theorem yields_standIn (v : Value) : Yields s (standIn v) fun t =>
    (∃ d, t = .constant d) ∨ ∃ d, t = .name d .load := by
  have hform : Yields s (formConstant v) fun t =>
      (∃ d, t = .constant d) ∨ ∃ d, t = .name d .load :=
    yields_after fun _ => yields_pure (.inl ⟨_, rfl⟩)
  refine Yields.rescue (yields_after fun value => ?_) fun _ => hform
  cases value with
  | some w => exact yields_after fun _ => yields_pure (.inl ⟨_, rfl⟩)
  | none =>
    refine yields_after fun name => ?_
    cases name with
    | some w => exact yields_after fun _ => yields_pure (.inr ⟨_, rfl⟩)
    | none => exact hform

/-- A stand-in can stand by itself or for an expression. -/
theorem shaped_standIn (v : Value) (p : Place) (hp : p = .loose ∨ p = .value) :
    Yields s (standIn v) (Shaped s p) := by
  refine (yields_standIn v).mono ?_
  rintro t (⟨d, rfl⟩ | ⟨d, rfl⟩)
  · rcases hp with rfl | rfl
    · exact shaped_constant d _ rfl
    · exact shaped_constant d _ rfl
  · rcases hp with rfl | rfl
    · exact shaped_load d _ rfl rfl
    · exact shaped_load d _ rfl rfl

theorem yields_requiring {fields : List Field} {rule : Rule}
    (h : Yields s (rule visit v) (Shaped s .loose)) :
    Yields s (requiring fields rule visit v) (Shaped s .loose) := by
  refine yields_after fun has => ?_
  cases has with
  | true => exact h
  | false => exact shaped_standIn v .loose (.inl rfl)

variable (hvisit : ∀ w, Yields s (visit w) (Converted s))

include hvisit

theorem yields_visitField (v : Value) (f : Field) :
    Yields s (visitField visit v f) (Converted s) :=
  yields_after fun _ => hvisit _

theorem yields_visitTrue {missing : Term} (v : Value) (f : Field) (p : Place) (hp : p ≠ .target)
    (hm : Shaped s p missing) : Yields s (visitTrue visit v f missing) (Shaped s p) := by
  refine yields_after fun value => ?_
  cases value with
  | some w => exact (hvisit w).mono fun _ h => h.shaped p hp
  | none => exact yields_pure hm

theorem yields_visitEach (w : Value) (p : Place) (hp : p ≠ .target) :
    Yields s (visitEach visit w) fun ts => ∀ t ∈ ts, Shaped s p t :=
  yields_forEach fun x => (hvisit x).mono fun _ h => h.shaped p hp

theorem yields_visitNodes (w : Value) (p : Place) (hp : p ≠ .target) :
    Yields s (visitNodes visit w) fun ts => ∀ t ∈ ts, Shaped s p t :=
  yields_after fun _ => yields_forEach fun x => (hvisit x).mono fun _ h => h.shaped p hp

omit hvisit in
theorem filled_pass : Filled s [.pass] := by
  refine ⟨by simp, ?_⟩
  rw [List.forall_mem_singleton]
  exact .atom rfl rfl rfl

omit hvisit in
/-- A body that would be empty does nothing. -/
theorem filled_flatten {parts : List (List Term)}
    (h : ∀ ts ∈ parts, ∀ t ∈ ts, Shaped s .statement t) :
    Filled s (if parts.flatten.isEmpty then [.pass] else parts.flatten) := by
  by_cases hempty : parts.flatten.isEmpty = true
  · rw [if_pos hempty]
    exact filled_pass
  · rw [if_neg hempty]
    refine ⟨by simpa using hempty, fun t ht => ?_⟩
    obtain ⟨ts, hts, ht⟩ := List.mem_flatten.mp ht
    exact h ts hts t ht

theorem yields_block (b : Value) : Yields s (block visit b) (Filled s) := by
  have hnet : ∀ x, Yields s (rescue (do return contribution (← visit x)) fun _ => return [])
      fun ts => ∀ t ∈ ts, Shaped s .statement t := fun x =>
    Yields.rescue ((hvisit x).bind fun c hc => yields_pure hc.contribution)
      fun _ => yields_pure (by simp)
  refine yields_after fun isTrue => ?_
  cases isTrue with
  | false => exact yields_pure filled_pass
  | true =>
    refine yields_after fun has => ?_
    cases has with
    | false => exact yields_pure filled_pass
    | true =>
      exact yields_after fun nodes => (yields_forEach hnet).bind fun parts hparts =>
        yields_pure (filled_flatten hparts)

theorem yields_fieldBlock (v : Value) (f : Field) : Yields s (fieldBlock visit v f) (Filled s) := by
  refine yields_after fun has => ?_
  cases has with
  | true => exact yields_after fun b => yields_block hvisit b
  | false => exact yields_pure filled_pass

end Rules

end Convert

end Target

end ProgramTree
