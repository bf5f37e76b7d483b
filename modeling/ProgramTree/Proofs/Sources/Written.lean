/-
Which terms can be written.

Writing a term goes through it and gives the text of each part, with one thing that may be in the
way: some statements are only written if they know their place in the source. A grammatical term
is therefore written unless it has such a statement that does not know its place, and then the
fault is that of the first one, in the order in which a term comes before its parts
(`Grammatical.source_eq`).
-/
import ProgramTree.Proofs.Grammar
import ProgramTree.Proofs.Terms.Parts
import ProgramTree.Target.Source

namespace ProgramTree.Target

/-! ## Terms before their parts -/

namespace Term

theorem sizeOf_lt_of_mem_parts {t : Term} {e : Place × Term} (he : e ∈ t.parts) :
    sizeOf e.2 < sizeOf t := by
  have hmem : ∀ {c : Term} {ts : List Term}, c ∈ ts → sizeOf c < sizeOf ts :=
    List.sizeOf_lt_of_mem
  cases t with
  | dict es =>
    obtain ⟨entry, hentry, he⟩ := List.mem_flatMap.mp he
    have hsize := List.sizeOf_lt_of_mem hentry
    obtain ⟨key, value⟩ := entry
    simp only [List.mem_cons, List.not_mem_nil, or_false] at he
    rcases he with rfl | rfl
    · simp at hsize ⊢
      omega
    · simp at hsize ⊢
      omega
  | _ =>
    simp only [parts, List.mem_cons, List.mem_append, List.mem_map, List.not_mem_nil, or_false]
      at he <;> grind

/-- A term and all that it has inside, each before its parts. -/
def preorder (t : Term) : List Term :=
  t :: t.parts.attach.flatMap fun e => preorder e.1.2
termination_by sizeOf t
decreasing_by exact sizeOf_lt_of_mem_parts e.2

theorem preorder_eq (t : Term) : t.preorder = t :: t.parts.flatMap fun e => e.2.preorder := by
  rw [preorder, List.flatMap_subtype (g := fun e => e.2.preorder) fun _ _ => rfl,
    List.unattach_attach]

/-- Whether a statement is only written if it knows its place, and does not know it. -/
def unplaced : Term → Bool
  | .assign _ _ placed | .forLoop _ _ _ placed | .functionDef _ _ _ _ placed
  | .asyncFunctionDef _ _ _ _ placed => !placed
  | _ => false

/-- The first statement inside that is in the way of writing. -/
def lost? (t : Term) : Option Term :=
  t.preorder.find? unplaced

/-- The first statement inside several terms that is in the way. -/
def firstLost? (ts : List Term) : Option Term :=
  ts.findSome? lost?

theorem lost?_eq (t : Term) :
    t.lost? = if t.unplaced then some t else t.parts.findSome? fun e => e.2.lost? := by
  rw [lost?, preorder_eq, List.find?_cons, List.find?_flatMap]
  cases t.unplaced <;> rfl

/-- The parts are gone through in order. -/
theorem findSome?_places (q : Place) (ts : List Term) :
    (ts.map fun t => (q, t)).findSome? (fun e => e.2.lost?) = firstLost? ts := by
  rw [List.findSome?_map]
  rfl

theorem firstLost?_eq_none {ts : List Term} (h : ∀ t ∈ ts, t.lost? = none) :
    firstLost? ts = none :=
  List.findSome?_eq_none_iff.mpr h

/-- A term that needs no place and has no statement in the way inside. -/
theorem lost?_eq_none {t : Term} (hu : t.unplaced = false)
    (hp : ∀ e ∈ t.parts, e.2.lost? = none) : t.lost? = none := by
  rw [lost?_eq, hu, if_neg Bool.false_ne_true]
  exact List.findSome?_eq_none_iff.mpr hp

end Term

/-! ## Pens with texts only -/

namespace Pen

/-- All pieces are texts. -/
def Plain (p : Pen) : Prop :=
  ∀ d ∈ p.pieces, ∃ s, d = .text s

variable {p : Pen} {s : String}

theorem plain_start : start.Plain := by
  simp [Plain, start]

@[simp] theorem plain_put_text : (p.put (.text s)).Plain ↔ p.Plain := by
  simp [Plain, put, or_imp, forall_and]

@[simp] theorem plain_write : (p.write s).Plain ↔ p.Plain :=
  plain_put_text

@[simp] theorem plain_newline : p.newline.Plain ↔ p.Plain := by
  rw [newline]
  split
  · rfl
  · exact plain_write

@[simp] theorem plain_fill : (p.fill s).Plain ↔ p.Plain := by
  rw [fill, plain_write, plain_newline]

@[simp] theorem plain_deeper : p.deeper.Plain ↔ p.Plain :=
  Iff.rfl

@[simp] theorem plain_shallower : p.shallower.Plain ↔ p.Plain :=
  Iff.rfl

theorem plain_putAll {q : Pen} (hp : p.Plain) (hq : q.Plain) : (p.putAll q.pieces).Plain := by
  intro d hd
  rcases Array.mem_append.mp hd with hd | hd
  · exact hp d hd
  · exact hq d hd

theorem texts_of_plain {ds : List Doc} (h : ∀ d ∈ ds, ∃ s, d = .text s) (i : Nat) :
    ∃ ss, texts i ds = .ok ss := by
  induction ds generalizing i with
  | nil => exact ⟨[], rfl⟩
  | cons d rest ih =>
    obtain ⟨⟨s, rfl⟩, hrest⟩ := List.forall_mem_cons.mp h
    obtain ⟨ss, hss⟩ := ih hrest (i + 1)
    exact ⟨s :: ss, by rw [texts, hss]; rfl⟩

/-- Texts can be put together. -/
theorem joined_of_plain (h : p.Plain) : ∃ code, p.joined = .ok code := by
  obtain ⟨ss, hss⟩ := texts_of_plain (fun d hd => h d (Array.mem_toList_iff.mp hd)) 0
  exact ⟨String.join ss, by rw [joined, hss]; rfl⟩

end Pen

/-! ## Outcomes of writing -/

/-- How writing ends: with texts only, or at the statement that was in the way. -/
def Ends (u : Option Term) (x : Except Fault Pen) : Prop :=
  match u with
  | none => ∃ p, x = .ok p ∧ p.Plain
  | some t => x = .error (.noField t.className "lineno")

section Ends

variable {u w : Option Term} {x : Except Fault Pen} {f : Writing} {p : Pen}

theorem ends_ok (hp : p.Plain) : Ends none (.ok p) :=
  ⟨p, rfl, hp⟩

theorem Ends.bind (hx : Ends u x) (hf : ∀ p, p.Plain → Ends w (f p)) :
    Ends (u.or w) (x >>= f) := by
  cases u with
  | none =>
    obtain ⟨p, rfl, hp⟩ := hx
    exact hf p hp
  | some t =>
    obtain rfl : x = _ := hx
    rfl

/-- What follows something that nothing is in the way of. -/
theorem Ends.after (hx : Ends none x) (hf : ∀ p, p.Plain → Ends w (f p)) : Ends w (x >>= f) :=
  hx.bind hf

/-- What is followed by something that nothing is in the way of. -/
theorem Ends.before (hx : Ends u x) (hf : ∀ p, p.Plain → Ends none (f p)) :
    Ends u (x >>= f) := by
  have h := hx.bind hf
  rwa [Option.or_none] at h

theorem ends_delimitIf {c : Bool} {opening closing : String}
    (hf : ∀ p, p.Plain → Ends u (f p)) (hp : p.Plain) :
    Ends u (Writing.delimitIf c opening closing f p) := by
  cases c with
  | false => exact hf p hp
  | true =>
    exact (hf _ (Pen.plain_write.mpr hp)).before fun q hq => ends_ok (Pen.plain_write.mpr hq)

theorem ends_block (hf : ∀ p, p.Plain → Ends u (f p)) (hp : p.Plain) :
    Ends u (Writing.block f p) :=
  (hf _ (by simpa using hp)).before fun q hq => ends_ok (Pen.plain_shallower.mpr hq)

/-- A statement that needs a place, with what comes before and after it. -/
theorem ends_needsPlace {t : Term} {placed : Bool} (ht : t.unplaced = !placed)
    (hf : ∀ p, p.Plain → Ends u (f p)) (hp : p.Plain) :
    Ends (if t.unplaced then some t else u)
      (do Term.needsPlace t.className placed; f p) := by
  cases placed with
  | true =>
    rw [ht, Bool.not_true, if_neg Bool.false_ne_true]
    exact hf p hp
  | false =>
    rw [ht, Bool.not_false, if_pos rfl]
    rfl

end Ends

/-! ## Writing several terms -/

namespace Term

/-- A term is written, unless a statement inside is in the way. -/
def Writes (t : Term) : Prop :=
  ∀ level p, p.Plain → Ends t.lost? (t.write level p)

/-- A term is written, with nothing inside in the way. -/
def Flows (t : Term) : Prop :=
  ∀ level p, p.Plain → Ends none (t.write level p)

section Lists

variable {t : Term} {ts : List Term} {p : Pen}

theorem Flows.ends (h : t.Flows) (level : Level) (hp : p.Plain) : Ends none (t.write level p) :=
  h level p hp

theorem ends_writeAll (h : ∀ t ∈ ts, t.Writes) (hp : p.Plain) :
    Ends (firstLost? ts) (writeAll ts p) := by
  induction ts generalizing p with
  | nil => exact ends_ok hp
  | cons t rest ih =>
    obtain ⟨ht, hrest⟩ := List.forall_mem_cons.mp h
    have hor : firstLost? (t :: rest) = t.lost?.or (firstLost? rest) := by
      rw [firstLost?, List.findSome?_cons]
      cases t.lost? <;> rfl
    rw [hor, writeAll]
    exact (ht _ p hp).bind fun q hq => ih hrest hq

theorem ends_writeFollowing (h : ∀ t ∈ ts, t.Flows) (comma : Bool) (hp : p.Plain) :
    Ends none (writeFollowing comma ts p) := by
  induction ts generalizing p comma with
  | nil => exact ends_ok hp
  | cons t rest ih =>
    obtain ⟨ht, hrest⟩ := List.forall_mem_cons.mp h
    rw [writeFollowing]
    refine (ht.ends _ ?_).after fun q hq => ih hrest true hq
    cases comma <;> simpa using hp

theorem ends_writeSeparated (h : ∀ t ∈ ts, t.Flows) (hp : p.Plain) :
    Ends none (writeSeparated ts p) := by
  cases ts with
  | nil => exact ends_ok hp
  | cons t rest =>
    obtain ⟨ht, hrest⟩ := List.forall_mem_cons.mp h
    rw [writeSeparated]
    exact (ht.ends _ hp).after fun q hq => ends_writeFollowing hrest true hq

theorem ends_writeElements (h : ∀ t ∈ ts, t.Flows) (hp : p.Plain) :
    Ends none (writeElements ts p) := by
  cases ts with
  | nil => exact ends_ok hp
  | cons t rest =>
    obtain ⟨ht, hrest⟩ := List.forall_mem_cons.mp h
    cases rest with
    | nil =>
      rw [writeElements]
      exact (ht.ends _ hp).after fun q hq => ends_ok (Pen.plain_write.mpr hq)
    | cons t' rest =>
      rw [writeElements]
      · exact (ht.ends _ hp).after fun q hq => ends_writeFollowing hrest true hq
      · simp

theorem ends_writeMoreEntries {es : List (Term × Term)} (hk : ∀ e ∈ es, e.1.Flows)
    (hv : ∀ e ∈ es, e.2.Flows) (hp : p.Plain) : Ends none (writeMoreEntries es p) := by
  induction es generalizing p with
  | nil => exact ends_ok hp
  | cons e rest ih =>
    obtain ⟨hk, hkrest⟩ := List.forall_mem_cons.mp hk
    obtain ⟨hv, hvrest⟩ := List.forall_mem_cons.mp hv
    rw [writeMoreEntries]
    exact (hk.ends _ (Pen.plain_write.mpr hp)).after fun q hq =>
      (hv.ends _ (Pen.plain_write.mpr hq)).after fun q hq => ih hkrest hvrest hq

theorem ends_writeEntries {es : List (Term × Term)} (hk : ∀ e ∈ es, e.1.Flows)
    (hv : ∀ e ∈ es, e.2.Flows) (hp : p.Plain) : Ends none (writeEntries es p) := by
  cases es with
  | nil => exact ends_ok hp
  | cons e rest =>
    obtain ⟨hk, hkrest⟩ := List.forall_mem_cons.mp hk
    obtain ⟨hv, hvrest⟩ := List.forall_mem_cons.mp hv
    rw [writeEntries]
    exact (hk.ends _ hp).after fun q hq => (hv.ends _ (Pen.plain_write.mpr hq)).after
      fun q hq => ends_writeMoreEntries hkrest hvrest hq

theorem ends_writeCompared (signs : List CompareSign) (h : ∀ t ∈ ts, t.Flows) (hp : p.Plain) :
    Ends none (writeCompared signs ts p) := by
  induction ts generalizing p signs with
  | nil => cases signs <;> exact ends_ok hp
  | cons t rest ih =>
    obtain ⟨ht, hrest⟩ := List.forall_mem_cons.mp h
    cases signs with
    | nil => exact ends_ok hp
    | cons sign signs =>
      rw [writeCompared]
      exact (ht.ends _ (Pen.plain_write.mpr hp)).after fun q hq => ih signs hrest hq

theorem ends_writeConditions (h : ∀ t ∈ ts, t.Flows) (hp : p.Plain) :
    Ends none (writeConditions ts p) := by
  induction ts generalizing p with
  | nil => exact ends_ok hp
  | cons t rest ih =>
    obtain ⟨ht, hrest⟩ := List.forall_mem_cons.mp h
    rw [writeConditions]
    exact (ht.ends _ (Pen.plain_write.mpr hp)).after fun q hq => ih hrest hq

theorem ends_writeDecorators (h : ∀ t ∈ ts, t.Flows) (hp : p.Plain) :
    Ends none (writeDecorators ts p) := by
  induction ts generalizing p with
  | nil => exact ends_ok hp
  | cons t rest ih =>
    obtain ⟨ht, hrest⟩ := List.forall_mem_cons.mp h
    rw [writeDecorators]
    exact (ht.ends _ (Pen.plain_fill.mpr hp)).after fun q hq => ih hrest hq

/-- An index is written at a level that leaves the parentheses of a tuple away. -/
theorem exists_write_subscript (t index : Term) (level : Level) (p : Pen) :
    ∃ inner, (Term.subscript t index).write level p = (do
      ranked [t]
      let p ← t.write Level.atom p
      Writing.delimit "[" "]" (index.write inner) p) := by
  cases index with
  | tuple es c =>
    cases es with
    | nil => exact ⟨Level.test, by rw [write]; simp⟩
    | cons e es =>
      have hinner : writeElements (e :: es) = (Term.tuple (e :: es) c).write Level.tuple := by
        funext q
        rw [write, List.isEmpty_cons, Bool.false_or, decide_eq_false (lt_irrefl Level.tuple)]
        rfl
      exact ⟨Level.tuple, by rw [write, hinner]⟩
  | _ => exact ⟨Level.test, by rw [write]; simp⟩

/-! Levels are given to expressions below, and an expression is one term. -/

theorem ranked_of_expression (hg : ∀ t ∈ ts, Grammatical .expression t) : ranked ts = .ok () := by
  have hnone : (ts.any fun t => t.sort = .several) = false := by
    simp only [List.any_eq_false, decide_eq_true_eq]
    intro t ht
    rw [(hg t ht).sort_expression]
    decide
  rw [ranked, hnone, if_neg Bool.false_ne_true]

theorem ends_writeMoreRising (sign : LogicalSign) (level : Level)
    (hg : ∀ t ∈ ts, Grammatical .expression t) (h : ∀ t ∈ ts, t.Flows) (hp : p.Plain) :
    Ends none (writeMoreRising sign level ts p) := by
  induction ts generalizing p level with
  | nil => exact ends_ok hp
  | cons t rest ih =>
    obtain ⟨ht, hrest⟩ := List.forall_mem_cons.mp h
    obtain ⟨hgt, hgrest⟩ := List.forall_mem_cons.mp hg
    rw [writeMoreRising, ranked_of_expression (List.forall_mem_singleton.mpr hgt)]
    exact (ht.ends _ (Pen.plain_write.mpr hp)).after fun q hq => ih _ hgrest hrest hq

theorem ends_writeRising (sign : LogicalSign) (level : Level)
    (hg : ∀ t ∈ ts, Grammatical .expression t) (h : ∀ t ∈ ts, t.Flows) (hp : p.Plain) :
    Ends none (writeRising sign level ts p) := by
  cases ts with
  | nil => exact ends_ok hp
  | cons t rest =>
    obtain ⟨ht, hrest⟩ := List.forall_mem_cons.mp h
    obtain ⟨hgt, hgrest⟩ := List.forall_mem_cons.mp hg
    rw [writeRising, ranked_of_expression (List.forall_mem_singleton.mpr hgt)]
    exact (ht.ends _ hp).after fun q hq => ends_writeMoreRising sign _ hgrest hrest hq

theorem ends_writeTargets (hg : ∀ t ∈ ts, Grammatical .expression t) (h : ∀ t ∈ ts, t.Flows)
    (hp : p.Plain) : Ends none (writeTargets ts p) := by
  induction ts generalizing p with
  | nil => exact ends_ok hp
  | cons t rest ih =>
    obtain ⟨ht, hrest⟩ := List.forall_mem_cons.mp h
    obtain ⟨hgt, hgrest⟩ := List.forall_mem_cons.mp hg
    rw [writeTargets, ranked_of_expression (List.forall_mem_singleton.mpr hgt)]
    exact (ht.ends _ hp).after fun q hq => ih hgrest hrest (Pen.plain_write.mpr hq)

end Lists

end Term

/-! ## Expressions -/

/-- Whether there are no statements in a place of the grammar. -/
def Role.isSilent : Role → Bool
  | .statement | .handler => false
  | _ => true

namespace Grammatical

variable {r : Role} {t : Term} {p : Pen}

theorem isTrue (h : Grammatical .expression t) : t.isTrue = true := by
  cases h <;> rfl

/-- Where no statements belong, none is in the way. -/
theorem lost?_eq_none (h : Grammatical r t) (hr : r.isSilent = true) : t.lost? = none := by
  induction h with
  | present h ih => exact ih rfl
  | expr | assign | augAssign | annAssign | pass | breakLoop | continueLoop | giveBack | raise
  | delete | importing | importFrom | ifStmt | whileLoop | forLoop | tryStmt | functionDef
  | asyncFunctionDef | classDef | handler => cases hr
  | dict hk hv ihk ihv =>
    refine Term.lost?_eq_none rfl fun e he => ?_
    obtain ⟨x, hx, he⟩ := List.mem_flatMap.mp he
    rcases List.mem_pair.mp he with rfl | rfl
    · exact ihk x hx rfl
    · exact ihv x hx rfl
  | _ =>
    refine Term.lost?_eq_none rfl ?_
    simp_all [Term.parts, Role.isSilent]

theorem ranked_eq (h : Grammatical .expression t) : Term.ranked [t] = .ok () :=
  Term.ranked_of_expression (List.forall_mem_singleton.mpr h)

/-- A part that may be missing is written only if it is there. -/
theorem ends_optional {f : Writing} {level : Level} {u : Option Term}
    (h : t.isTrue = true → t.Flows) {q : Pen} (hq : q.Plain) (hp : p.Plain)
    (hf : ∀ p, p.Plain → Ends u (f p)) :
    Ends u (if t.isTrue then t.write level q >>= f else .ok p >>= f) := by
  by_cases ht : t.isTrue = true
  · rw [if_pos ht]
    exact ((h ht).ends level hq).after hf
  · rw [if_neg ht]
    exact hf p hp

/-- The same at the end. -/
theorem ends_lastly {level : Level} (h : t.isTrue = true → t.Flows) {q : Pen} (hq : q.Plain)
    (hp : p.Plain) : Ends none (if t.isTrue then t.write level q else pure p) := by
  by_cases ht : t.isTrue = true
  · rw [if_pos ht]
    exact (h ht).ends level hq
  · rw [if_neg ht]
    exact ends_ok hp

theorem ends_constant {d : Doc} (h : d.isScalar = true) (hp : p.Plain) :
    Ends none (Term.writeConstant d p) := by
  cases d with
  | null | bool | int | float | text => exact ends_ok (Pen.plain_write.mpr hp)
  | _ => cases h

/-- Clauses, one after the other. -/
theorem ends_clauses {cs : List Term} (hc : ∀ c ∈ cs, Grammatical .clause c)
    (h : ∀ c ∈ cs, c.isTrue = true → c.Flows) (hp : p.Plain) :
    Ends none (Term.writeAll cs p) := by
  have hflows : ∀ c ∈ cs, c.Flows := by
    intro c hm
    refine h c hm ?_
    cases hc c hm with
    | comprehension => rfl
  have hnone : ∀ c ∈ cs, c.lost? = none := fun c hm => (hc c hm).lost?_eq_none rfl
  rw [← Term.firstLost?_eq_none hnone]
  exact Term.ends_writeAll (fun c hm level q hq => hnone c hm ▸ hflows c hm level q hq) hp

theorem flows (h : Grammatical r t) (silent : r.isSilent = true) (there : t.isTrue = true) :
    t.Flows := by
  induction h with
  | expr | assign | augAssign | annAssign | pass | breakLoop | continueLoop | giveBack | raise
  | delete | importing | importFrom | ifStmt | whileLoop | forLoop | tryStmt | functionDef
  | asyncFunctionDef | classDef | handler => cases silent
  | absent => cases there
  | present h ih => exact ih rfl there
  | name => exact fun _ _ hp => ends_ok (Pen.plain_put_text.mpr hp)
  | constant h => exact fun _ _ hp => ends_constant h hp
  | ellipsis => exact fun _ _ hp => ends_ok (Pen.plain_write.mpr hp)
  | tuple h ih =>
    intro level p hp
    rw [Term.write]
    exact ends_delimitIf
      (fun q hq => Term.ends_writeElements (fun e he => ih e he rfl (h e he).isTrue) hq) hp
  | list h ih =>
    intro level p hp
    rw [Term.write]
    exact ends_delimitIf
      (fun q hq => Term.ends_writeSeparated (fun e he => ih e he rfl (h e he).isTrue) hq) hp
  | @set es h ih =>
    intro level p hp
    rw [Term.write]
    split
    · exact ends_ok (Pen.plain_write.mpr hp)
    · exact ends_delimitIf
        (fun q hq => Term.ends_writeSeparated (fun e he => ih e he rfl (h e he).isTrue) hq) hp
  | dict hk hv ihk ihv =>
    intro level p hp
    rw [Term.write]
    exact ends_delimitIf (fun q hq => Term.ends_writeEntries
      (fun e he => ihk e he rfl (hk e he).isTrue) (fun e he => ihv e he rfl (hv e he).isTrue) hq)
      hp
  | «attribute» h ih =>
    intro level p hp
    simp only [Term.write, h.ranked_eq]
    refine ((ih rfl h.isTrue).ends _ hp).after fun q hq => ends_ok ?_
    split <;> simpa using hq
  | subscript ht hi iht ihi => 
    intro level p hp
    obtain ⟨inner, hwrite⟩ := Term.exists_write_subscript _ _ level p
    rw [hwrite, ht.ranked_eq]
    exact ((iht rfl ht.isTrue).ends _ hp).after fun q hq =>
      ends_delimitIf (fun q hq => (ihi rfl hi.isTrue).ends inner hq) hq
  | slice hl hu hs ihl ihu ihs =>
    intro level p hp
    rw [Term.write]
    refine ends_optional (ihl rfl) hp hp fun q hq => ?_
    refine ends_optional (ihu rfl) (by simpa using hq) (by simpa using hq) fun q hq => ?_
    exact ends_lastly (ihs rfl) (by simpa using hq) hq
  | starred h ih =>
    intro level p hp
    rw [Term.write, h.ranked_eq]
    exact (ih rfl h.isTrue).ends _ (by simpa using hp)
  | call hf ha ihf iha =>
    intro level p hp
    rw [Term.write, hf.ranked_eq]
    refine ((ihf rfl hf.isTrue).ends _ hp).after fun q hq => ?_
    refine (Term.ends_writeSeparated (fun a hm => iha a hm rfl (ha a hm).isTrue)
      (Pen.plain_write.mpr hq)).after fun q hq => ends_ok (Pen.plain_write.mpr hq)
  | unary h ih =>
    intro level p hp
    rw [Term.write]
    refine ends_delimitIf (fun q hq => ?_) hp
    rw [h.ranked_eq]
    refine (ih rfl h.isTrue).ends _ ?_
    split <;> simpa using hq
  | binary hl hr ihl ihr =>
    intro level p hp
    rw [Term.write, hl.ranked_eq, hr.ranked_eq]
    refine ends_delimitIf (fun q hq => ((ihl rfl hl.isTrue).ends _ hq).after fun q hq => ?_) hp
    exact (ihr rfl hr.isTrue).ends _ (Pen.plain_write.mpr hq)
  | logical htwo h ih =>
    intro level p hp
    rw [Term.write]
    exact ends_delimitIf (fun q hq => Term.ends_writeRising _ _ h
      (fun e he => ih e he rfl (h e he).isTrue) hq) hp
  | compare hlen hl h ihl ih =>
    intro level p hp
    rw [Term.write, Term.ranked_of_expression (List.forall_mem_cons.mpr ⟨hl, h⟩)]
    exact ends_delimitIf (fun q hq => ((ihl rfl hl.isTrue).ends _ hq).after fun q hq =>
      Term.ends_writeCompared _ (fun e he => ih e he rfl (h e he).isTrue) hq) hp
  | named ht h iht ih =>
    intro level p hp
    rw [Term.write, Term.ranked_of_expression (by simp [ht, h])]
    exact ends_delimitIf (fun q hq => ((iht rfl ht.isTrue).ends _ hq).after fun q hq =>
      (ih rfl h.isTrue).ends _ (Pen.plain_write.mpr hq)) hp
  | conditional ht hb ho iht ihb iho =>
    intro level p hp
    rw [Term.write, Term.ranked_of_expression (by simp [ht, hb]), ho.ranked_eq]
    exact ends_delimitIf (fun q hq => ((ihb rfl hb.isTrue).ends _ hq).after fun q hq =>
      ((iht rfl ht.isTrue).ends _ (Pen.plain_write.mpr hq)).after fun q hq =>
        (iho rfl ho.isTrue).ends _ (Pen.plain_write.mpr hq)) hp
  | lambda ha hb iha ihb =>
    intro level p hp
    rw [Term.write, hb.ranked_eq]
    refine ends_delimitIf (fun q hq => ?_) hp
    have hargs := iha rfl (by cases ha with | arguments => rfl)
    -- The parameters are written apart, to see whether there are any.
    refine (hargs.ends _ (by simp [Pen.Plain])).after fun apart hapart => ?_
    refine (ihb rfl hb.isTrue).ends _ (Pen.plain_write.mpr ?_)
    split
    · exact Pen.plain_write.mpr hq
    · exact Pen.plain_putAll (by simpa using hq) hapart
  | await h ih | yieldFrom h ih =>
    intro level p hp
    simp only [Term.write, h.ranked_eq, if_pos h.isTrue]
    exact ends_delimitIf (fun q hq => (ih rfl h.isTrue).ends _ (by simpa using hq)) hp
  | yield h ih =>
    intro level p hp
    rw [Term.write]
    refine ends_delimitIf (fun q hq => ?_) hp
    cases h with
    | absent => exact ends_ok (Pen.plain_write.mpr hq)
    | present h =>
      rw [h.ranked_eq]
      exact ends_lastly (ih rfl) (by simpa using hq) (by simpa using hq)
  | listComp he hc ihe ihc | setComp he hc ihe ihc | generator he hc ihe ihc =>
    intro level p hp
    rw [Term.write]
    exact ends_delimitIf (fun q hq => ((ihe rfl he.isTrue).ends _ hq).after fun q hq =>
      ends_clauses hc (fun c hm => ihc c hm rfl) hq) hp
  | arg h ih =>
    intro level p hp
    rw [Term.write]
    exact ends_lastly (ih rfl) (by simpa using hp) (by simpa using hp)
  | arguments h ih =>
    intro level p hp
    rw [Term.write]
    refine Term.ends_writeSeparated (fun a ha => ih a ha rfl ?_) hp
    cases h a ha with
    | arg => rfl
  | comprehension ht hi hc iht ihi ihc =>
    intro level p hp
    rw [Term.write, ht.ranked_eq, Term.ranked_of_expression (List.forall_mem_cons.mpr ⟨hi, hc⟩)]
    exact ((iht rfl ht.isTrue).ends _ (by simpa using hp)).after fun q hq =>
      ((ihi rfl hi.isTrue).ends _ (by simpa using hq)).after fun q hq =>
        Term.ends_writeConditions (fun e he => ihc e he rfl (hc e he).isTrue) hq
  | @imported _ asname h =>
    intro level p hp
    cases asname with
    | null =>
      rw [Term.write]
      · exact ends_ok (Pen.plain_put_text.mpr hp)
      · simp
    | text s =>
      rw [Term.write]
      split
      · exact ends_ok (by simpa using hp)
      · exact ends_ok (Pen.plain_put_text.mpr hp)
    | _ => cases h

/-! ## Statements -/

end Grammatical

namespace Term

variable {t : Term} {ts body : List Term} {p : Pen}

/-- A statement is written as the only one of another branch. -/
def Continues (t : Term) : Prop :=
  ∀ p, p.Plain → Ends t.lost? (writeOrElse [t] p)

/-- All but a conditional statement is written there as a block of its own. -/
theorem Writes.continues (h : t.Writes) (hne : ∀ test body orElse, t ≠ .ifStmt test body orElse) :
    t.Writes ∧ t.Continues := by
  refine ⟨h, fun p hp => ?_⟩
  rw [writeOrElse]
  · exact ends_block (fun q hq => (h _ q hq).before fun q hq => ends_ok hq) (Pen.plain_fill.mpr hp)
  · simpa using hne

/-- A statement that nothing inside is in the way of. -/
theorem continues_of_flows (hu : t.unplaced = false) (hl : ∀ e ∈ t.parts, e.2.lost? = none)
    (hne : ∀ test body orElse, t ≠ .ifStmt test body orElse) (h : t.Flows) :
    t.Writes ∧ t.Continues :=
  Writes.continues (fun level p hp => lost?_eq_none hu hl ▸ h level p hp) hne

theorem ends_writeOrElse (h : ∀ t ∈ ts, t.Writes ∧ t.Continues) (hp : p.Plain) :
    Ends (firstLost? ts) (writeOrElse ts p) := by
  cases ts with
  | nil => exact ends_ok hp
  | cons t rest =>
    cases rest with
    | nil =>
      rw [firstLost?, List.findSome?_singleton]
      exact (List.forall_mem_singleton.mp h).2 p hp
    | cons t' rest =>
      rw [writeOrElse]
      · exact ends_block (fun q hq => ends_writeAll (fun t ht => (h t ht).1) hq)
          (Pen.plain_fill.mpr hp)
      · simp

/-- A text at the start of a body is no statement that needs a place. -/
theorem ends_writeBody (h : ∀ t ∈ ts, t.Writes) (hp : p.Plain) :
    Ends (firstLost? ts) (writeBody ts p) := by
  fun_cases writeBody ts p with
  | case1 => exact ends_ok hp
  | case2 s rest =>
    have hnone : (Term.expr (.constant (.text s))).lost? = none :=
      lost?_eq_none rfl (List.forall_mem_singleton.mpr
        (Grammatical.lost?_eq_none (.constant rfl) rfl))
    rw [firstLost?, List.findSome?_cons, hnone]
    exact ends_writeAll (List.forall_mem_cons.mp h).2 (by simpa using hp)
  | case3 t rest => exact ends_writeAll h hp

/-! Which statement is in the way of one that has others inside: itself, or the first inside. -/

section Bodies

variable {test target iterable args returns type : Term}
  {orElse handlers finalBody bases decorators : List Term} {title : Doc} {placed : Bool}

theorem lost?_ifStmt (ht : test.lost? = none) :
    (Term.ifStmt test body orElse).lost? = (firstLost? body).or (firstLost? orElse) := by
  simp [lost?_eq (.ifStmt _ _ _), unplaced, parts, ht, findSome?_places]

theorem lost?_whileLoop (ht : test.lost? = none) :
    (Term.whileLoop test body).lost? = firstLost? body := by
  simp [lost?_eq (.whileLoop _ _), unplaced, parts, ht, findSome?_places]

theorem lost?_forLoop (ht : target.lost? = none) (hi : iterable.lost? = none) :
    (Term.forLoop target iterable body placed).lost? =
      if (Term.forLoop target iterable body placed).unplaced
      then some (.forLoop target iterable body placed) else firstLost? body := by
  simp [lost?_eq (.forLoop _ _ _ _), parts, ht, hi, findSome?_places]

theorem lost?_tryStmt : (Term.tryStmt body handlers finalBody).lost? =
    (firstLost? body).or ((firstLost? handlers).or (firstLost? finalBody)) := by
  simp [lost?_eq (.tryStmt _ _ _), unplaced, parts, findSome?_places]

theorem lost?_functionDef (h : args.lost? = none ∧ returns.lost? = none) :
    (Term.functionDef title args body returns placed).lost? =
      if (Term.functionDef title args body returns placed).unplaced
      then some (.functionDef title args body returns placed) else firstLost? body := by
  simp [lost?_eq (.functionDef _ _ _ _ _), parts, h, findSome?_places]

theorem lost?_asyncFunctionDef (h : args.lost? = none ∧ returns.lost? = none) :
    (Term.asyncFunctionDef title args body returns placed).lost? =
      if (Term.asyncFunctionDef title args body returns placed).unplaced
      then some (.asyncFunctionDef title args body returns placed) else firstLost? body := by
  simp [lost?_eq (.asyncFunctionDef _ _ _ _ _), parts, h, findSome?_places]

theorem lost?_classDef (hb : firstLost? bases = none) (hd : firstLost? decorators = none) :
    (Term.classDef title bases body decorators).lost? = firstLost? body := by
  simp [lost?_eq (.classDef _ _ _ _), unplaced, parts, hb, hd, findSome?_places]

theorem lost?_handler (ht : type.lost? = none) :
    (Term.handler type title body).lost? = firstLost? body := by
  simp [lost?_eq (.handler _ _ _), unplaced, parts, ht, findSome?_places]

end Bodies

end Term

namespace Grammatical

variable {r : Role} {t : Term} {p : Pen}

theorem expr_flows (h : Grammatical .expression t) : t.Flows :=
  h.flows rfl h.isTrue

theorem flows_parameters (h : Grammatical .parameters t) : t.Flows := by
  refine h.flows rfl ?_
  cases h with
  | arguments => rfl

theorem flows_of_imported {names : List Term} (h : ∀ t ∈ names, Grammatical .imported t) :
    ∀ t ∈ names, t.Flows := by
  intro t ht
  refine (h t ht).flows rfl ?_
  cases h t ht with
  | imported => rfl

/-- The statements of a body, by what is known of each of them. -/
theorem ends_body {ts : List Term} (hr : r.isSilent = false)
    (h : ∀ t ∈ ts, r.isSilent = false → t.Writes ∧ t.Continues) (q : Pen) (hq : q.Plain) :
    Ends (Term.firstLost? ts) (Term.writeAll ts q) :=
  Term.ends_writeAll (fun t ht => (h t ht hr).1) hq

/-- A head and a block behind it. -/
theorem ends_headed {x : Except Fault Pen} {f : Writing} {u : Option Term} (hx : Ends none x)
    (hf : ∀ p, p.Plain → Ends u (f p)) : Ends u (x >>= Writing.block f) :=
  hx.after fun _ hq => ends_block hf hq

theorem writes (h : Grammatical r t) (hr : r.isSilent = false) : t.Writes ∧ t.Continues := by
  induction h with
  | expr h =>
    refine Term.continues_of_flows rfl ?_ (by simp) fun level p hp => ?_
    · exact List.forall_mem_singleton.mpr (h.lost?_eq_none rfl)
    · rw [Term.write, h.ranked_eq]
      exact h.expr_flows.ends _ (Pen.plain_fill.mpr hp)
  | @assign targets value placed hne ht h =>
    refine Term.Writes.continues (fun level p hp => ?_) (by simp)
    have hparts :
        (Term.assign targets value placed).parts.findSome? (fun e => e.2.lost?) = none := by
      simpa [Term.parts, h.lost?_eq_none rfl] using fun x hx => (ht x hx).lost?_eq_none rfl
    rw [Term.lost?_eq, hparts, Term.write]
    refine (Term.ends_writeTargets ht (fun x hx => (ht x hx).expr_flows)
      (Pen.plain_fill.mpr hp)).after fun q hq => ?_
    refine (h.expr_flows.ends _ hq).after fun q hq => ?_
    exact ends_needsPlace rfl (fun _ => ends_ok) hq
  | augAssign ht h =>
    refine Term.continues_of_flows rfl ?_ (by simp) fun level p hp => ?_
    · simp [Term.parts, ht.lost?_eq_none rfl, h.lost?_eq_none rfl]
    · rw [Term.write]
      refine (ht.expr_flows.ends _ (Pen.plain_fill.mpr hp)).after fun q hq => ?_
      exact h.expr_flows.ends _ (Pen.plain_write.mpr hq)
  | annAssign ht hh h =>
    refine Term.continues_of_flows rfl ?_ (by simp) fun level p hp => ?_
    · simp [Term.parts, ht.lost?_eq_none rfl, hh.lost?_eq_none rfl, h.lost?_eq_none rfl]
    · rw [Term.write]
      refine (ht.expr_flows.ends _ (Pen.plain_fill.mpr hp)).after fun q hq => ?_
      refine (hh.expr_flows.ends _ (Pen.plain_write.mpr hq)).after fun q hq => ?_
      exact ends_lastly (h.flows rfl) (Pen.plain_write.mpr hq) hq
  | pass | breakLoop | continueLoop =>
    refine Term.continues_of_flows rfl ?_ (by simp) fun level p hp => ?_
    · exact List.forall_mem_nil _
    · exact ends_ok (Pen.plain_fill.mpr hp)
  | giveBack h | raise h =>
    refine Term.continues_of_flows rfl ?_ (by simp) fun level p hp => ?_
    · exact List.forall_mem_singleton.mpr (h.lost?_eq_none rfl)
    · rw [Term.write]
      exact ends_lastly (h.flows rfl) (by simpa using hp) (Pen.plain_fill.mpr hp)
  | delete h =>
    refine Term.continues_of_flows rfl ?_ (by simp) fun level p hp => ?_
    · simpa [Term.parts] using fun t ht => (h t ht).lost?_eq_none rfl
    · rw [Term.write]
      exact Term.ends_writeSeparated (fun t ht => (h t ht).expr_flows)
        (Pen.plain_fill.mpr hp)
  | importing h =>
    refine Term.continues_of_flows rfl ?_ (by simp) fun level p hp => ?_
    · simpa [Term.parts] using fun t ht => (h t ht).lost?_eq_none rfl
    · rw [Term.write]
      exact Term.ends_writeSeparated (flows_of_imported h) (Pen.plain_fill.mpr hp)
  | @importFrom _ _ dots h =>
    refine Term.continues_of_flows rfl ?_ (by simp) fun level p hp => ?_
    · simpa [Term.parts] using fun t ht => (h t ht).lost?_eq_none rfl
    · obtain ⟨points, hpoints⟩ : ∃ points, Writing.points (.int dots) = .ok points := by
        rw [Writing.points]
        split <;> exact ⟨_, rfl⟩
      rw [Term.write, hpoints]
      refine Term.ends_writeSeparated (flows_of_imported h) (Pen.plain_write.mpr ?_)
      split <;> simpa using hp
  | @ifStmt test body orElse ht hne hb ho _ ihb iho =>
    have hends : ∀ (word : String) (p : Pen), p.Plain →
        Ends (Term.ifStmt test body orElse).lost? (do
          let p ← test.write Level.test (p.fill word)
          let p ← Writing.block (Term.writeAll body) p
          Term.writeOrElse orElse p) := by
      intro word p hp
      rw [Term.lost?_ifStmt (ht.lost?_eq_none rfl)]
      refine (ht.expr_flows.ends _ (Pen.plain_fill.mpr hp)).after fun q hq => ?_
      refine (ends_block (ends_body rfl ihb) hq).bind fun q hq => ?_
      exact Term.ends_writeOrElse (fun t ht => iho t ht rfl) hq
    refine ⟨fun level p hp => ?_, fun p hp => ?_⟩
    · rw [Term.write]
      exact hends _ p hp
    · rw [Term.writeOrElse]
      exact hends _ p hp
  | whileLoop ht hne hb _ ihb =>
    refine Term.Writes.continues (fun level p hp => ?_) (by simp)
    rw [Term.lost?_whileLoop (ht.lost?_eq_none rfl), Term.write]
    exact ends_headed (ht.expr_flows.ends _ (Pen.plain_fill.mpr hp)) (ends_body rfl ihb)
  | forLoop ht hi hne hb _ _ ihb =>
    refine Term.Writes.continues (fun level p hp => ?_) (by simp)
    rw [Term.lost?_forLoop (ht.lost?_eq_none rfl) (hi.lost?_eq_none rfl), Term.write, ht.ranked_eq]
    refine (ht.expr_flows.ends _ (Pen.plain_fill.mpr hp)).after fun q hq => ?_
    refine (hi.expr_flows.ends _ (Pen.plain_write.mpr hq)).after fun q hq => ?_
    exact ends_needsPlace rfl (fun _ => ends_block (ends_body rfl ihb)) hq
  | tryStmt hne hb hh hf ihb ihh ihf =>
    refine Term.Writes.continues (fun level p hp => ?_) (by simp)
    rw [Term.lost?_tryStmt, Term.write]
    refine (ends_block (ends_body rfl ihb) (Pen.plain_fill.mpr hp)).bind fun q hq => ?_
    refine (ends_body rfl ihh q hq).bind fun q hq => ?_
    split
    · next hempty =>
      rw [List.isEmpty_iff.mp hempty]
      exact ends_ok hq
    · exact ends_block (ends_body rfl ihf) (Pen.plain_fill.mpr hq)
  | functionDef ha hne hb hreturns _ ihb | asyncFunctionDef ha hne hb hreturns _ ihb =>
    refine Term.Writes.continues (fun level p hp => ?_) (by simp)
    have hlost := And.intro (ha.lost?_eq_none rfl) (hreturns.lost?_eq_none rfl)
    first | rw [Term.lost?_functionDef hlost] | rw [Term.lost?_asyncFunctionDef hlost]
    rw [Term.write]
    refine (ends_ok (by simpa using hp)).after fun q hq => ?_
    refine (ends_delimitIf (fun _ => ha.flows_parameters.ends _) hq).after fun q hq => ?_
    refine ends_optional (hreturns.flows rfl) (Pen.plain_write.mpr hq) hq fun q hq => ?_
    exact ends_needsPlace rfl (fun _ => ends_block fun q hq =>
      Term.ends_writeBody (fun t ht => (ihb t ht rfl).1) hq) hq
  | classDef hbase hne hb hd _ ihb =>
    refine Term.Writes.continues (fun level p hp => ?_) (by simp)
    rw [Term.lost?_classDef (Term.firstLost?_eq_none fun t ht => (hbase t ht).lost?_eq_none rfl)
      (Term.firstLost?_eq_none fun t ht => (hd t ht).lost?_eq_none rfl), Term.write]
    refine (Term.ends_writeDecorators (fun t ht => (hd t ht).expr_flows)
      (Pen.plain_newline.mpr hp)).after fun q hq => ?_
    refine (ends_ok (Pen.plain_fill.mpr hq)).after fun q hq => ?_
    refine ends_headed (ends_delimitIf (fun q hq => ?_) hq) fun q hq =>
      Term.ends_writeBody (fun t ht => (ihb t ht rfl).1) hq
    exact Term.ends_writeSeparated (fun t ht => (hbase t ht).expr_flows) hq
  | @handler type name body ht hn hne hb _ ihb =>
    refine Term.Writes.continues (fun level p hp => ?_) (by simp)
    rw [Term.lost?_handler (ht.lost?_eq_none rfl), Term.write]
    refine ends_optional (ht.flows rfl) (by simpa using hp) (Pen.plain_fill.mpr hp) fun q hq => ?_
    refine ends_block (ends_body rfl ihb) ?_
    cases name with
    | null => exact hq
    | text s => split <;> simpa using hq
    | _ => cases hn
  | _ => cases hr

/-- **Writing.** What is grammatical is written, unless a statement is in the way that does not
know its place: then the first such statement is at fault. -/
theorem source_eq (h : Grammatical r t) (ht : t.isTrue = true) :
    (∃ u, t.lost? = some u ∧ t.source = .error (.noField u.className "lineno")) ∨
      t.lost? = none ∧ ∃ code, t.source = .ok code := by
  have hends : Ends t.lost? (t.write Level.test Pen.start) := by
    cases hr : r.isSilent with
    | true =>
      rw [h.lost?_eq_none hr]
      exact h.flows hr ht _ _ Pen.plain_start
    | false => exact (h.writes hr).1 _ _ Pen.plain_start
  cases hlost : t.lost? with
  | some u =>
    rw [hlost] at hends
    obtain hends : t.write Level.test Pen.start = _ := hends
    exact .inl ⟨u, rfl, by rw [Term.source, hends]; rfl⟩
  | none =>
    rw [hlost] at hends
    obtain ⟨p, hwrite, hp⟩ := hends
    obtain ⟨code, hcode⟩ := Pen.joined_of_plain hp
    exact .inr ⟨rfl, code, by rw [Term.source, hwrite]; exact hcode⟩

end Grammatical

end ProgramTree.Target
