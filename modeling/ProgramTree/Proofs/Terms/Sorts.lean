/-
Sorts and contexts in converted terms.

The grammar of the target language asks for a class of terms at each place, and for a mark on
each name that says whether it is read, bound or deleted. A rule gives the terms that it makes
itself the right class and the right mark. The conversions of nodes it takes as they are, so what
is out of order is always a conversion, and `lawful_iff` says which: one whose class does not fit
its place, one that binds names which are marked as read, and one that is deleted.
-/
import ProgramTree.Proofs.Terms.Rules

namespace ProgramTree.Target

open Look

/-! ## Classes of conversions -/

namespace Convert

/-- The classes of the terms that nodes of a form are converted to. A node in parentheses is
converted as the node inside. -/
def classes (form : Form) : List String :=
  match (method? form).map Method.promise with
  | some (.oneOf names) => names
  | some .several => ["list"]
  | some .anything => if form.isA .caseStmt then ["match_case"] else ["Match"]
  | some .oneTerm | none => []

section Classes

variable {s : Store} {visit : Visit} {v : Value} {n : Node} {g : Form} {m : Method} {t : Term}

theorem of_promise_several (hm : own? g = some m) (hp : m.promise = .several) :
    g = .nodeList ∨ g = .block := by
  cases g <;> cases hm <;> first | exact .inl rfl | exact .inr rfl | cases hp

theorem of_promise_anything (hm : own? g = some m) (hp : m.promise = .anything) :
    g = .caseStmt ∨ g = .switchStmt := by
  cases g <;> cases hm <;> first | exact .inl rfl | exact .inr rfl | cases hp

theorem of_promise_oneTerm (hm : own? g = some m) (hp : m.promise = .oneTerm) :
    g = .parenthesizedExpr := by
  cases g <;> cases hm <;> first | rfl | cases hp

theorem yields_items_nodeList (hn : ∃ w, run (field v .nodes) s = .ok w) :
    Yields s (nodeList visit v) fun t => t.className = "list" := by
  obtain ⟨w, hw⟩ := hn
  refine yields_known (run_has_of_ok hw) ?_
  rw [if_pos rfl]
  exact yields_after fun _ => yields_pure rfl

theorem yields_matchCase (hc : ∃ w, run (field v .condition) s = .ok w) :
    Yields s (caseStmt visit v) fun t => t.className = "match_case" := by
  refine yields_required (by simpa using hc) (yields_after fun c => ?_)
  cases c <;> exact yields_after fun _ => yields_after fun _ => yields_pure rfl

theorem yields_match (hf : ∀ f ∈ [Field.value, .cases], ∃ w, run (field v f) s = .ok w) :
    Yields s (switch visit v) fun t => t.className = "Match" :=
  yields_required hf (yields_after fun _ => yields_after fun _ => yields_after fun _ =>
    .ite (yields_after fun _ => yields_pure rfl) (yields_after fun _ => yields_pure rfl))

/-- What stands in parentheses is converted as if it stood alone. -/
theorem yields_inside (hv : ∃ w, run (field v .value) s = .ok w) :
    Yields s (ofValue id visit v) fun t => ∃ w, run (visit w) s = .ok t :=
  yields_required (by simpa using hv) (Yields.bind (P := fun u => ∃ w, run (visit w) s = .ok u)
    (yields_after fun w _ hu => ⟨w, hu⟩) fun _ h => yields_pure h)

/-- None of these forms has others below it. -/
theorem eq_of_mem_ancestors (form : Form) :
    ∀ g ∈ [Form.caseStmt, .switchStmt, .parenthesizedExpr, .exceptionHandlerStmt,
      .finallyHandlerStmt], g ∈ form.ancestors → form = g := by
  cases form <;> decide

/-- The class of a conversion is one that the form of the node promises, or the node is one in
parentheses. -/
theorem className_of_step (hs : Built s) (hn : s.nodeOf? v = some n)
    (h : run (step visit v) s = .ok t) : t.className ∈ classes n.form ∨
      n.form = .parenthesizedExpr ∧ ∃ w, run (visit w) s = .ok t := by
  obtain ⟨n', m, hn', hm, ht, hp⟩ := step_eq_ok h
  obtain rfl := Option.some.inj (hn.symm.trans hn')
  obtain ⟨g, hg, hown⟩ := List.exists_of_findSome?_eq_some hm
  cases hpromise : m.promise with
  | oneOf names =>
    rw [hpromise] at hp
    exact .inl (by simpa [classes, hm, hpromise] using check_oneOf_eq_ok.mp hp)
  | several =>
    have hlist : t.className = "list" := by
      rcases of_promise_several hown hpromise with rfl | rfl
      · cases hown
        exact yields_items_nodeList (run_field_of_holds hs hn (holds_nodes n.form hg)) t ht
      · cases hown
        exact (yields_after fun _ => yields_pure rfl : Yields s (blockStmt _ v)
          fun t => t.className = "list") t ht
    exact .inl (by simp [classes, hm, hpromise, hlist])
  | anything =>
    rcases of_promise_anything hown hpromise with rfl | rfl
    · have hform := eq_of_mem_ancestors n.form _ (by decide) hg
      cases hown
      have hclass := yields_matchCase (run_field_of_holds hs hn (by rw [hform]; decide)) t ht
      rw [hclass, hform]
      exact .inl (by decide)
    · have hform := eq_of_mem_ancestors n.form _ (by decide) hg
      cases hown
      have hfields : ∀ f ∈ [Field.value, .cases], ∃ w, run (field v f) s = .ok w := by
        refine fun f hf => run_field_of_holds hs hn ?_
        rw [hform]
        revert f
        decide
      rw [yields_match hfields t ht, hform]
      exact .inl (by decide)
  | oneTerm =>
    obtain rfl := of_promise_oneTerm hown hpromise
    have hform := eq_of_mem_ancestors n.form _ (by decide) hg
    cases hown
    exact .inr ⟨hform, yields_inside (run_field_of_holds hs hn (by rw [hform]; decide)) t ht⟩

/-- Each conversion is that of a node whose form promises its class. -/
theorem exists_className_mem (hs : Built s) {depth : Nat} (h : run (toDepth depth v) s = .ok t) :
    ∃ depth w n, run (toDepth depth w) s = .ok t ∧ s.nodeOf? w = some n ∧
      t.className ∈ classes n.form := by
  induction depth generalizing v with
  | zero => cases h
  | succ depth ih =>
    obtain ⟨n, m, hn, -⟩ := step_eq_ok h
    rcases className_of_step hs hn h with hclass | ⟨-, w, hw⟩
    · exact ⟨depth + 1, v, n, h, hn, hclass⟩
    · exact ih hw

/-- A form promises one class, or two that stand in the same places. -/
theorem admitsClass_classes (p : Place) {form : Form} {k k' : String} (hk : k ∈ classes form)
    (hk' : k' ∈ classes form) : p.admitsClass k = p.admitsClass k' := by
  have hfew : (classes form).length ≤ 1 ∨ classes form = ["BinOp", "Call"] := by
    clear hk hk'
    cases form <;> decide
  rcases hfew with hone | htwo
  · rcases hform : classes form with _ | ⟨a, _ | ⟨b, rest⟩⟩
    · simp [hform] at hk
    · simp only [hform, List.mem_singleton] at hk hk'
      rw [hk, hk']
    · simp [hform] at hone
  · have hboth : ∀ k ∈ ["BinOp", "Call"], p.admitsClass k = p.admitsClass "Call" := by
      cases p <;> decide
    rw [htwo] at hk hk'
    rw [hboth k hk, hboth k' hk']

end Classes

end Convert

/-! ## Terms in order -/

/-- A term binds a name with this mark where it is bound: it is the name, or lists it. What is
listed in a tuple that is marked as bound has a place of its own. -/
inductive Term.Binds : Term → Context → Prop
  | name {id : Doc} {c : Context} : Binds (.name id c) c
  | tuple {es : List Term} {e : Term} {c : Context} (he : e ∈ es) (h : Binds e c) :
      Binds (.tuple es .load) c
  | list {es : List Term} {e : Term} {c : Context} (he : e ∈ es) (h : Binds e c) :
      Binds (.list es) c
  | starred {t : Term} {c : Context} (h : Binds t c) : Binds (.starred t) c

/-- A term is in order. Nothing is marked as deleted, so nothing can be deleted in order. -/
structure Term.Lawful (t : Term) : Prop where
  /-- Each part fits its place. -/
  fits : ∀ p u, t.Has p u → p.admits u = true
  /-- Names are marked as bound where they are bound. -/
  bound : ∀ p u c, t.Has p u → p.binds = true → u.Binds c → c = .store
  /-- No part is deleted. -/
  deleted : ∀ u, ¬ t.Has .deleted u
  /-- Other names are marked as read. -/
  read : ∀ p id c, t.Has p (.name id c) → p.binds = false → c = .load

open ProgramTree.Target.Convert

/-- A term is the conversion of a node, or that conversion knowing its place in the source. -/
def Stands (s : Store) (u : Term) : Prop :=
  ∃ c depth w, run (toDepth depth w) s = .ok c ∧ Settled c u

/-- A term is the conversion of a node, and the form of the node promises a class that does not
fit the place. -/
def Misplaced (s : Store) (p : Place) (u : Term) : Prop :=
  ∃ c depth w n k, run (toDepth depth w) s = .ok c ∧ Settled c u ∧ s.nodeOf? w = some n ∧
    k ∈ classes n.form ∧ p.admitsClass k = false

section Order

variable {s : Store} {v : Value} {p : Place} {c t u : Term} {x : Context}

theorem Settled.same (h : Settled c u) : u.className = c.className ∧ u.body? = c.body? := by
  rcases h with rfl | h | h
  · exact ⟨rfl, rfl⟩
  · exact (placed_parts h).2
  · cases c with
    | arguments args | call f args keywords =>
      obtain ⟨_, -, h⟩ := bind_eq_ok.mp h
      cases h
      exact ⟨rfl, rfl⟩
    | lambda | functionDef | asyncFunctionDef => cases h
    | _ =>
      obtain rfl := Except.ok.inj h
      exact ⟨rfl, rfl⟩

/-- Few classes of terms know their places in the source. -/
theorem Settled.eq_of_className (h : Settled c u)
    (hu : u.className ∈ ["Name", "Tuple", "List", "Starred", "Try"]) : u = c := by
  rw [h.same.1] at hu
  cases c with
  | name | tuple | list | starred | tryStmt =>
    rcases h with h | h | h
    · exact h
    · exact (Except.ok.inj h).symm
    · exact (Except.ok.inj h).symm
  | _ => simp [Term.className] at hu

theorem Term.Binds.className (h : u.Binds x) :
    u.className ∈ ["Name", "Tuple", "List", "Starred", "Try"] := by
  cases h <;> simp [Term.className]

/-- Names that are not bound are read. -/
theorem Shaped.read {id : Doc} (h : Shaped s p u) (hp : p.binds = false) (hu : u = .name id x) :
    x = .load := by
  induction h with
  | made _ hk _ =>
    subst hu
    cases x with
    | load => rfl
    | store => simp [Place.keeps, hp] at hk
  | converted _ _ ht _ _ ih => exact ih rfl ((ht.eq_of_className (by simp [hu, Term.className])) ▸ hu)

theorem Shaped.binds_load (h : Shaped s p u) (hp : p.binds = false) (hb : u.Binds x) :
    x = .load := by
  induction hb generalizing p with
  | name => exact h.read hp rfl
  | tuple he _ ih => exact ih (h.part (e := (.value, _)) (List.mem_map_of_mem he)) rfl
  | list he _ ih => exact ih (h.part (e := (.value, _)) (List.mem_map_of_mem he)) rfl
  | starred _ ih => exact ih (h.part (e := (.value, _)) (List.mem_singleton.mpr rfl)) rfl

/-- A name is marked as bound exactly where it is not a conversion that is bound. -/
theorem Shaped.eq_store_iff (hs : Built s) (h : Shaped s p u) (hp : p.binds = true)
    (hb : u.Binds x) : x = .store ↔ ¬ Stands s u := by
  constructor
  · rintro rfl ⟨c, depth, w, hrun, hsettled⟩
    obtain rfl := hsettled.eq_of_className hb.className
    cases (shaped_of_toDepth hs depth w _ hrun).binds_load rfl hb
  · intro hstands
    cases h with
    | converted hrun _ ht _ _ => exact absurd ⟨_, _, _, hrun, ht⟩ hstands
    | made _ hk _ =>
      cases hb with
      | name => simpa [Place.keeps, hp] using hk
      | tuple | list | starred => simp [Place.keeps, hp] at hk

theorem Shaped.store_of_target {id : Doc} (h : Shaped s .target (.name id x)) : x = .store := by
  cases h with
  | made _ hk _ => simpa [Place.keeps, Place.binds] using hk
  | converted _ _ _ _ hn => exact absurd rfl (hn rfl id x)

/-- What does not fit its place is a conversion. -/
theorem Shaped.admits_iff (hs : Built s) (h : Shaped s p u) :
    p.admits u = true ↔ ¬ Misplaced s p u := by
  constructor
  · rintro ha ⟨c, depth, w, n, k, hrun, hsettled, hn, hk, hno⟩
    rw [Place.admits, hsettled.same.1] at ha
    cases depth with
    | zero => cases hrun
    | succ depth =>
      rcases className_of_step hs hn hrun with hclass | ⟨hform, -⟩
      · rw [admitsClass_classes p hk hclass, ha] at hno
        cases hno
      · rw [hform] at hk
        cases hk
  · intro hfits
    cases h with
    | made ha _ _ => exact ha
    | converted hrun _ ht _ _ =>
      obtain ⟨depth, w, n, hrun, hn, hclass⟩ := exists_className_mem hs hrun
      by_contra hno
      exact hfits ⟨_, depth, w, n, _, hrun, ht, hn, hclass, by
        simpa [Place.admits, ht.same.1] using hno⟩

/-- **Order.** In a converted term each part fits its place unless it is the conversion of a node
whose form promises another class. What a part binds is marked as bound unless the part is itself
a conversion, and names that are not bound are marked as read. So the term is in order exactly if
no conversion is misplaced, none binds a name by itself, and nothing is deleted. -/
theorem lawful_iff (hs : Built s) (ht : run (term v) s = .ok t) :
    (∀ p u, t.Has p u → (p.admits u = true ↔ ¬ Misplaced s p u) ∧
      (p.binds = true → ∀ x, u.Binds x → (x = .store ↔ ¬ Stands s u)) ∧
      ∀ id x, u = .name id x → (p = .target → x = .store) ∧ (p.binds = false → x = .load)) ∧
    (t.Lawful ↔ ∀ p u, t.Has p u → ¬ Misplaced s p u ∧
      (p.binds = true → Stands s u → ∀ x, ¬ u.Binds x) ∧ p ≠ .deleted) := by
  rw [run_term] at ht
  have hshaped : ∀ {p u}, t.Has p u → Shaped s p u := (shaped_of_toDepth hs _ _ t ht).has
  refine ⟨fun p u hu => ⟨(hshaped hu).admits_iff hs, fun hp x => (hshaped hu).eq_store_iff hs hp,
    fun id x hx => ⟨fun hp => ?_, fun hp => (hshaped hu).read hp hx⟩⟩, fun h p u hu => ⟨?_, ?_, ?_⟩,
    fun h => ⟨fun p u hu => ?_, fun p u x hu hp hb => ?_, fun u hu => ?_, fun p id x hu hp => ?_⟩⟩
  · subst hx hp
    exact (hshaped hu).store_of_target
  · exact ((hshaped hu).admits_iff hs).mp (h.fits p u hu)
  · intro hp hstands x hb
    exact ((hshaped hu).eq_store_iff hs hp hb).mp (h.bound p u x hu hp hb) hstands
  · rintro rfl
    exact h.deleted u hu
  · exact ((hshaped hu).admits_iff hs).mpr (h p u hu).1
  · exact ((hshaped hu).eq_store_iff hs hp hb).mpr fun hstands => (h p u hu).2.1 hp hstands x hb
  · exact (h .deleted u hu).2.2 rfl
  · exact (hshaped hu).read hp rfl

end Order

/-- What is made for a number that gets a name. -/
def namedNumber : List Making :=
  [.node .variableUse [] [(.name, .text "x")], .node .literalInt32 [] [(.value, .int 1)],
   .node .walrusOp [] [(.lhs, .ref 21), (.rhs, .ref 25)]]

theorem namedNumber_term : (Store.made? namedNumber).any (fun s =>
    match run (term (.ref 29)) s with
    | .ok (.named (.name (.text "x") .store) (.constant (.int 1))) => true
    | _ => false) = true := by
  decide +kernel

/-- The name of the number is bound, and the term is in order. -/
theorem namedNumber_lawful : ∃ s, Store.made? namedNumber = some s ∧
    run (term (.ref 29)) s = .ok (.named (.name (.text "x") .store) (.constant (.int 1))) ∧
    Term.Lawful (.named (.name (.text "x") .store) (.constant (.int 1))) := by
  obtain ⟨s, hs, htest⟩ := (Option.any_eq_true _ _).mp namedNumber_term
  have hterm : run (term (.ref 29)) s =
      .ok (.named (.name (.text "x") .store) (.constant (.int 1))) := by
    split at htest
    · next h => exact h
    · cases htest
  obtain ⟨hparts, hiff⟩ := lawful_iff (built_of_made hs) hterm
  refine ⟨s, hs, hterm, hiff.mpr fun p u hu => ?_⟩
  have hcases : (p, u) ∈ [(.loose, .named (.name (.text "x") .store) (.constant (.int 1))),
      (.target, .name (.text "x") .store), (.value, .constant (.int 1))] := by
    clear hparts
    induction hu with
    | whole => simp
    | part _ hc ih =>
      simp only [List.mem_cons, Prod.mk.injEq, List.not_mem_nil, or_false] at ih
      rcases ih with ⟨rfl, rfl⟩ | ⟨rfl, rfl⟩ | ⟨rfl, rfl⟩
      · exact List.mem_cons_of_mem _ hc
      · cases hc
      · cases hc
  obtain ⟨hfits, hbound, -⟩ := hparts p u hu
  simp only [List.mem_cons, Prod.mk.injEq, List.not_mem_nil, or_false] at hcases
  rcases hcases with ⟨rfl, rfl⟩ | ⟨rfl, rfl⟩ | ⟨rfl, rfl⟩
  · exact ⟨hfits.mp rfl, by simp [Place.binds], by decide⟩
  · exact ⟨hfits.mp rfl, fun _ hstands => absurd hstands ((hbound rfl .store .name).mp rfl),
      by decide⟩
  · exact ⟨hfits.mp rfl, by simp [Place.binds], by decide⟩

/-- What is made for a statement that deletes a name. -/
def deletedName : List Making :=
  [.node .identifier [] [(.name, .text "x")], .cell (.list [.ref 21]),
   .node .deleteStmt [] [(.value, .ref 25)]]

theorem deletedName_term : (Store.made? deletedName).any (fun s =>
    match run (term (.ref 26)) s with
    | .ok (.delete [.name (.text "x") .load]) => true
    | _ => false) = true := by
  decide +kernel

/-- A name that is deleted is marked as one that is read. -/
theorem deletedName_read : ∃ s, Store.made? deletedName = some s ∧
    run (term (.ref 26)) s = .ok (.delete [.name (.text "x") .load]) ∧
    ¬ Term.Lawful (.delete [.name (.text "x") .load]) := by
  obtain ⟨s, hs, htest⟩ := (Option.any_eq_true _ _).mp deletedName_term
  refine ⟨s, hs, ?_, fun h => h.deleted _ (.part .whole (List.mem_singleton.mpr rfl))⟩
  split at htest
  · next h => exact h
  · cases htest

end ProgramTree.Target
