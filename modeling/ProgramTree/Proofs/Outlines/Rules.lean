/-
Both outlines of a node, rule by rule.

Each rule that outlines a form hands the choice between a full and a simplified outline on
to the outlines of the parts. So the two outlines of a node follow each other step by step
(`Follows`): whenever the full one succeeds, the simplified one does, and they agree. The
rules are compared one by one, given that the outlines of smaller values agree (`Agrees`).

The outlines of two parts that are spread beside each other stay apart in both because their
keys begin differently (`isKey`).
-/
import ProgramTree.Proofs.Built
import ProgramTree.Proofs.Core.Tree
import ProgramTree.Proofs.Outlines.Stripped

namespace ProgramTree

open Look

/-! ## One look after another -/

/-- Whenever one look succeeds, so does another one, and what they find is related. -/
def Follows {α β : Type} (s : Store) (x : Look α) (y : Look β) (R : α → β → Prop) : Prop :=
  ∀ a, run x s = .ok a → ∃ b, run y s = .ok b ∧ R a b

namespace Follows

variable {α β γ δ : Type} {s : Store}

theorem bind {x : Look α} {y : Look β} {f : α → Look γ} {g : β → Look δ} {R : α → β → Prop}
    {T : γ → δ → Prop} (hxy : Follows s x y R) (hfg : ∀ a b, R a b → Follows s (f a) (g b) T) :
    Follows s (x >>= f) (y >>= g) T := by
  intro c hc
  rw [run_bind] at hc
  obtain ⟨a, ha, hfa⟩ := bind_eq_ok.mp hc
  obtain ⟨b, hb, hab⟩ := hxy a ha
  obtain ⟨e, he, hce⟩ := hfg a b hab c hfa
  exact ⟨e, by rw [run_bind, hb, ok_bind, he], hce⟩

/-- A look that is the same on both sides. -/
theorem same (x : Look α) : Follows s x x fun a b => a = b ∧ run x s = .ok a := fun a ha =>
  ⟨a, ha, rfl, ha⟩

/-- A look that is the same on both sides, and what follows it. -/
theorem same_bind {x : Look α} {f : α → Look γ} {g : α → Look δ} {T : γ → δ → Prop}
    (hfg : ∀ a, run x s = .ok a → Follows s (f a) (g a) T) : Follows s (x >>= f) (x >>= g) T :=
  (same x).bind fun a _ h => h.1 ▸ hfg a h.2

theorem pure {a : α} {b : β} {R : α → β → Prop} (h : R a b) :
    Follows s (Pure.pure a) (Pure.pure b) R := by
  intro c hc
  cases hc
  exact ⟨b, rfl, h⟩

theorem mono {x : Look α} {y : Look β} {R T : α → β → Prop} (h : Follows s x y R)
    (hRT : ∀ a b, R a b → T a b) : Follows s x y T := by
  intro a ha
  obtain ⟨b, hb, hab⟩ := h a ha
  exact ⟨b, hb, hRT a b hab⟩

theorem mapM {xs : List α} {f : α → Look γ} {g : α → Look δ} {R : γ → δ → Prop}
    (h : ∀ x ∈ xs, Follows s (f x) (g x) R) :
    Follows s (xs.mapM f) (xs.mapM g) (List.Forall₂ R) := by
  induction xs with
  | nil =>
    rw [List.mapM_nil, List.mapM_nil]
    exact pure .nil
  | cons x xs ih =>
    rw [List.mapM_cons, List.mapM_cons]
    refine (h x (List.mem_cons_self ..)).bind fun a b hab => ?_
    refine (ih fun y hy => h y (List.mem_cons_of_mem _ hy)).bind fun as bs habs => ?_
    exact pure (.cons hab habs)

/-- Two walks over the same items. -/
theorem walkFrom {v : Value} {f : Value → Look γ} {g : Value → Look δ} {R : γ → δ → Prop}
    (xs : List (Look Value)) (h : ∀ x ∈ xs, ∀ w, run x s = .ok w → Follows s (f w) (g w) R)
    (i : Nat) : Follows s (Look.walkFrom v f i xs) (Look.walkFrom v g i xs) (List.Forall₂ R) := by
  induction xs generalizing i with
  | nil => exact same_bind fun _ _ => pure .nil
  | cons x xs ih =>
    have hrest := ih (fun y hy => h y (List.mem_cons_of_mem _ hy)) (i + 1)
    refine Follows.bind (R := R) ?_ fun a b hab => hrest.bind fun as bs habs =>
      pure (.cons hab habs)
    -- A walk that is broken off fails, so only bodies that succeed count.
    intro a ha
    rw [run_rescue] at ha
    have hbody : run (x >>= f) s = .ok a := by
      split at ha
      · next hx =>
        rw [← ha]
        exact hx
      · rw [run_bind, run_leave, ok_bind, run_fail] at ha
        cases ha
    obtain ⟨b, hb, hab⟩ := same_bind (h x (List.mem_cons_self ..)) a hbody
    exact ⟨b, by rw [run_rescue, hb], hab⟩

theorem forEach {v : Value} {f : Value → Look γ} {g : Value → Look δ} {R : γ → δ → Prop}
    (h : ∀ w, Follows s (f w) (g w) R) :
    Follows s (Look.forEach v f) (Look.forEach v g) (List.Forall₂ R) :=
  same_bind fun xs _ => walkFrom xs (fun _ _ w _ => h w) 0

end Follows

/-! ## Keys -/

namespace Outline

variable {s : Store} {v w : Value} {isBlock : Bool} {key word : String} {h : Hint} {x y : Doc}
  {names : List String} {es fs : List (String × Doc)} {fields : List (String × Field)}
  {keys : Bool → Value → Look String}

/-- Whether a text begins as the key of an outline does. The keys of blocks begin as no other
keys do. -/
def isKey (isBlock : Bool) (key : String) : Bool :=
  match key.toList with
  | c :: d :: _ =>
    c.isUpper && decide ([c, d] ≠ ['W', 'i']) &&
      isBlock == ([c, d] == ['B', 'L'] || [c, d] == ['M', 'O'])
  | _ => false

theorem isKey_append (h : isKey isBlock key = true) (more : String) :
    isKey isBlock (key ++ more) = true := by
  rw [isKey] at h ⊢
  rw [String.toList_append]
  cases hkey : key.toList with
  | nil => simp [hkey] at h
  | cons c rest =>
    cases rest with
    | nil => simp [hkey] at h
    | cons d rest =>
      rw [hkey] at h
      exact h

theorem isKey_around {name more : String} (h : isKey isBlock key = true) :
    isKey isBlock (key ++ name ++ more) = true :=
  isKey_append (isKey_append h _) _

theorem isOrdinary_of_isKey (h : isKey isBlock key = true) : Doc.isOrdinary key = true := by
  have hnot : ∀ other, isKey isBlock other = false → key ≠ other := by
    rintro other hother rfl
    rw [hother] at h
    cases h
  have hcontent := hnot "content" (by cases isBlock <;> decide)
  have hmetadata := hnot "metadata" (by cases isBlock <;> decide)
  have hitem := hnot "WithItem" (by cases isBlock <;> decide)
  simp [Doc.isOrdinary, hcontent, hmetadata, hitem]

theorem ne_of_isKey {other : String} (h : isKey true key = true)
    (hother : isKey false other = true) : key ≠ other := by
  rintro rfl
  rw [isKey] at h hother
  cases hkey : key.toList with
  | nil => simp [hkey] at h
  | cons c rest =>
    cases rest with
    | nil => simp [hkey] at h
    | cons d rest =>
      simp only [hkey, Bool.and_eq_true, beq_iff_eq] at h hother
      exact absurd (h.2.trans hother.2.symm) (by decide)

/-- The keys of a full and a simplified outline of one node. -/
structure KeyPair (isBlock : Bool) (full simple : String) : Prop where
  ofFull : isKey isBlock full = true
  ofSimple : isKey isBlock simple = true
  marked : Doc.Marked full simple

theorem keyPair_same (h : isKey isBlock key = true) : KeyPair isBlock key key :=
  ⟨h, h, .same key⟩

/-- A key that carries the number when simplified. -/
theorem follows_numbered (h : isKey isBlock key = true) :
    Follows s (numbered false v key) (numbered true v key) (KeyPair isBlock) := by
  intro k hk
  cases hk
  simp only [numbered, number, if_true, run_bind, run_node?, ok_bind, run_pure]
  exact ⟨_, rfl, h, isKey_append (isKey_around h) _, .numbered key _⟩

theorem follows_hashed (h : isKey isBlock key = true) :
    Follows s (hashed false v key) (hashed true v key) (KeyPair isBlock) := by
  intro k hk
  cases hk
  simp only [hashed, number, if_true, run_bind, run_node?, ok_bind, run_pure]
  exact ⟨_, rfl, h, isKey_around h, .hashed key _⟩

theorem follows_caseKey (isDefault : Bool) :
    Follows s (caseKey false isDefault v) (caseKey true isDefault v) (KeyPair false) := by
  intro k hk
  cases isDefault with
  | true =>
    cases hk
    simp only [caseKey, number, if_true, run_bind, run_node?, ok_bind, run_pure]
    exact ⟨_, rfl, by decide, isKey_around (by decide), .otherwise _⟩
  | false =>
    cases hk
    simp only [caseKey, number, if_true, run_bind, run_node?, ok_bind, run_pure]
    refine ⟨_, rfl, by decide, isKey_around (by decide), ?_⟩
    exact .numbered "CASE-STMT" _

/-! ## What agrees -/

/-- The full and the simplified outline of a value. -/
structure Outlines (s : Store) (v : Value) (full simple : Doc) : Prop where
  agree : Doc.Agree full simple
  single : s.isForm v .node = true → full = .null ∨ ∃ k l x y, full = .single k x ∧
    simple = .single l y ∧ KeyPair (s.isForm v .block) k l ∧ Doc.AgreeEntry (k, x) (l, y)

/-- Descriptions of which the outlines agree. -/
structure Agrees (s : Store) (d : Describe) : Prop where
  outline : ∀ v, Follows s (d.outline false v) (d.outline true v) (Outlines s v)
  doc : ∀ w x, w.isScalar = true → run (d.doc w) s = .ok x → x.isScalar = true

/-- A rule of which the full and the simplified outline of a value agree. -/
abbrev AgreesAt (s : Store) (d : Describe) (v : Value)
    (rule : Describe → Bool → Value → Look Doc) : Prop :=
  Follows s (rule d false v) (rule d true v) (Outlines s v)

/-! ## Scalars and metadata -/

/-- Whether only scalars are as a hint says. -/
def scalarHint : Hint → Bool
  | .absent | .text | .bool | .int | .float => true
  | .either g h => scalarHint g && scalarHint h
  | _ => false

theorem isScalar_of_meets (hh : scalarHint h = true) (hw : h.meets s w = true) :
    w.isScalar = true := by
  induction h with
  | either g k ihg ihk =>
    simp only [scalarHint, Bool.and_eq_true] at hh
    simp only [Hint.meets, Bool.or_eq_true] at hw
    exact hw.elim (ihg hh.1) (ihk hh.2)
  | absent | text | bool | int | float =>
    cases w with
    | member m => simp [Hint.meets, Hint.isText, Hint.isNumber] at hw
    | ref a => simp [Hint.meets, Hint.isText, Hint.isNumber] at hw
    | _ => rfl
  | _ => exact absurd hh (by simp [scalarHint])

section Rules

variable {d : Describe} {n : Node} {f : Field}

/-- A field that holds a scalar, as plain data. -/
theorem isScalar_of_field (hs : Built s) (hd : Agrees s d) (hn : s.nodeOf? v = some n)
    (hkept : (f, h) ∈ n.form.kept) (hh : scalarHint h = true) (hc : n.form.computed? f = none)
    (hw : run (field v f) s = .ok w) (hx : run (d.doc w) s = .ok x) : x.isScalar = true :=
  hd.doc w x (isScalar_of_meets hh (hs.meets_of_field hn hkept hc hw)) hx

/-- A node that has the fields of every node, and is a block or none. -/
structure IsNode (s : Store) (isBlock : Bool) (v : Value) (n : Node) : Prop where
  node : s.nodeOf? v = some n
  isNode : n.form.isA .node = true
  notBare : n.form.isBare = false
  block : n.form.isA .block = isBlock

theorem IsNode.isForm {g : Form} (h : IsNode s isBlock v n) : s.isForm v g = n.form.isA g := by
  simp [Store.isForm, Store.formOf?, h.node]

theorem kept_node (form : Form) : (form.isA .node && !form.isBare) = false ∨
    (.loc, .node .place) ∈ form.kept ∧ (.comment, .text) ∈ form.kept ∧
      (.ref, .text) ∈ form.kept ∧ (.kind, .member .kind) ∈ form.kept := by
  cases form <;> decide

theorem kept_place (form : Form) :
    form.isA .place = false ∨ (.line, .int) ∈ form.kept ∧ (.col, .int) ∈ form.kept := by
  cases form <;> decide

theorem computed?_eq_none (form : Form) (h : f ≠ .name ∧ f ≠ .block) : form.computed? f = none := by
  simp [Form.computed?, h.1, h.2]

/-- The line and the column of a place. -/
theorem isScalar_of_place {p w : Value} (hs : Built s) (hd : Agrees s d)
    (hp : s.isForm p .place = true) (hf : f = .line ∨ f = .col) (hw : run (field p f) s = .ok w)
    (hx : run (d.doc w) s = .ok x) : x.isScalar = true := by
  obtain ⟨g, hg, hisA⟩ := Store.isForm_iff.mp hp
  obtain ⟨k, hk, rfl⟩ := Option.map_eq_some_iff.mp hg
  obtain ⟨hline, hcol⟩ := (kept_place k.form).resolve_left (by simp [hisA])
  rcases hf with rfl | rfl
  · exact isScalar_of_field hs hd hk hline rfl (computed?_eq_none _ (by decide)) hw hx
  · exact isScalar_of_field hs hd hk hcol rfl (computed?_eq_none _ (by decide)) hw hx

/-- The metadata of a node are scalars under fixed keys. -/
theorem exists_of_metadata {m : Doc} (hs : Built s) (hd : Agrees s d) (hv : IsNode s isBlock v n)
    (h : run (metadata d v) s = .ok m) : ∃ line col comment ref kind : Doc,
      m = .record [("loc", .record [("line", line), ("col", col)]), ("comment", comment),
        ("ref", ref), ("kind", kind)] ∧
      ∀ x ∈ [line, col, comment, ref, kind], x.isScalar = true := by
  obtain ⟨hloc, hcomment, href, hkind⟩ := (kept_node n.form).resolve_left
    (by simp [hv.isNode, hv.notBare])
  simp only [metadata, run_bind, run_pure] at h
  obtain ⟨p, hp, h⟩ := bind_eq_ok.mp h
  obtain ⟨line, hline, h⟩ := bind_eq_ok.mp h
  obtain ⟨x₁, hx₁, h⟩ := bind_eq_ok.mp h
  obtain ⟨p', hp', h⟩ := bind_eq_ok.mp h
  obtain ⟨col, hcol, h⟩ := bind_eq_ok.mp h
  obtain ⟨x₂, hx₂, h⟩ := bind_eq_ok.mp h
  obtain ⟨comment, hc, h⟩ := bind_eq_ok.mp h
  obtain ⟨x₃, hx₃, h⟩ := bind_eq_ok.mp h
  obtain ⟨ref, hr, h⟩ := bind_eq_ok.mp h
  obtain ⟨x₄, hx₄, h⟩ := bind_eq_ok.mp h
  obtain ⟨kind, hk, h⟩ := bind_eq_ok.mp h
  obtain ⟨code, hcode, h⟩ := bind_eq_ok.mp h
  obtain ⟨x₅, hx₅, h⟩ := bind_eq_ok.mp h
  cases h
  cases hp.symm.trans hp'
  have hplace := hs.meets_of_field hv.node hloc (computed?_eq_none _ (by decide)) hp
  have hmember := hs.meets_of_field hv.node hkind (computed?_eq_none _ (by decide)) hk
  have hscalar₅ : x₅.isScalar = true := by
    cases kind with
    | member m =>
      cases hcode
      exact hd.doc _ _ rfl hx₅
    | _ => cases hmember
  refine ⟨x₁, x₂, x₃, x₄, x₅, rfl, ?_⟩
  simp only [List.mem_cons, List.not_mem_nil, or_false, forall_eq_or_imp, forall_eq]
  exact ⟨isScalar_of_place hs hd hplace (.inl rfl) hline hx₁,
    isScalar_of_place hs hd hplace (.inr rfl) hcol hx₂,
    isScalar_of_field hs hd hv.node hcomment rfl (computed?_eq_none _ (by decide)) hc hx₃,
    isScalar_of_field hs hd hv.node href rfl (computed?_eq_none _ (by decide)) hr hx₄, hscalar₅⟩

/-- The metadata of a node are plain data. -/
theorem plain_metadata {m : Doc} (hs : Built s) (hd : Agrees s d) (hv : IsNode s isBlock v n)
    (h : run (metadata d v) s = .ok m) : m.Plain := by
  obtain ⟨line, col, comment, ref, kind, rfl, hscalar⟩ := exists_of_metadata hs hd hv h
  simp only [List.mem_cons, List.not_mem_nil, or_false, forall_eq_or_imp, forall_eq] at hscalar
  obtain ⟨hline, hcol, hcomment, href, hkind⟩ := hscalar
  refine .record ?_
  simp only [List.mem_cons, List.not_mem_nil, or_false, forall_eq_or_imp, forall_eq]
  refine ⟨.record ?_, .scalar hcomment, .scalar href, .scalar hkind⟩
  simp only [List.mem_cons, List.not_mem_nil, or_false, forall_eq_or_imp, forall_eq]
  exact ⟨.scalar hline, .scalar hcol⟩

/-! ## Parts of outlines -/

/-- A content under its key. What stands under the key of an argument need not agree. -/
theorem follows_prepare {k l : String} (hs : Built s) (hd : Agrees s d) (hv : IsNode s isBlock v n)
    (hkey : KeyPair isBlock k l)
    (hxy : (Doc.isArgumentKey k = true ∧ k = l ∧ x.Plain ∧ y.Plain) ∨ Doc.Agree x y) :
    Follows s (prepare d false v k x) (prepare d true v l y) (Outlines s v) := by
  intro full hfull
  simp only [prepare, Bool.false_eq_true, if_false, run_bind, run_pure] at hfull
  obtain ⟨m, hm, hfull⟩ := bind_eq_ok.mp hfull
  cases hfull
  have hmetadata := plain_metadata hs hd hv hm
  have hentry : Doc.AgreeEntry (k, .record [("content", x), ("metadata", m)]) (l, y) := by
    refine ⟨⟨isOrdinary_of_isKey hkey.ofFull, isOrdinary_of_isKey hkey.ofSimple⟩, hkey.marked, ?_⟩
    rcases hxy with ⟨harg, heq, hx, hy⟩ | hxy
    · refine .inl ⟨harg, heq, .record ?_, hy⟩
      simpa using ⟨hx, hmetadata⟩
    · exact .inr (hxy.prepared hmetadata)
  refine ⟨.single l y, rfl, .record (.cons hentry .nil), fun _ => .inr ?_⟩
  exact ⟨k, l, _, y, rfl, rfl, hv.isForm.trans hv.block ▸ hkey, hentry⟩

theorem agreeEntry_part (key : String) (hkey : Doc.isOrdinary key = true) (h : Doc.Agree x y) :
    Doc.AgreeEntry (key, x) (key, y) :=
  ⟨⟨hkey, hkey⟩, .same key, .inr h⟩

/-- Entries that agree, under given names. -/
structure AgreeParts (names : List String) (es fs : List (String × Doc)) : Prop where
  agree : List.Forall₂ Doc.AgreeEntry es fs
  ofFull : es.map Prod.fst = names
  ofSimple : fs.map Prod.fst = names

theorem agreeParts_nil : AgreeParts [] [] [] := ⟨.nil, rfl, rfl⟩

theorem agreeParts_single (key : String) (hkey : Doc.isOrdinary key = true) (h : Doc.Agree x y) :
    AgreeParts [key] [(key, x)] [(key, y)] :=
  ⟨.cons (agreeEntry_part _ hkey h) .nil, rfl, rfl⟩

theorem AgreeParts.append {names names' : List String} {es fs es' fs' : List (String × Doc)}
    (h : AgreeParts names es fs) (h' : AgreeParts names' es' fs') :
    AgreeParts (names ++ names') (es ++ es') (fs ++ fs') :=
  ⟨List.rel_append h.agree h'.agree, by rw [List.map_append, h.ofFull, h'.ofFull],
    by rw [List.map_append, h.ofSimple, h'.ofSimple]⟩

theorem AgreeParts.record (h : AgreeParts names es fs) : Doc.Agree (.record es) (.record fs) :=
  .record h.agree

theorem follows_outline (hd : Agrees s d) (w : Value) :
    Follows s (d.outline false w) (d.outline true w) Doc.Agree :=
  (hd.outline w).mono fun _ _ h => h.agree

theorem follows_fieldOutline (hd : Agrees s d) (v : Value) (f : Field) :
    Follows s (d.fieldOutline false v f) (d.fieldOutline true v f) Doc.Agree :=
  .same_bind fun w _ => follows_outline hd w

theorem follows_part (hd : Agrees s d) (hkey : Doc.isOrdinary key = true) :
    Follows s (part d false v key f) (part d true v key f) fun e e' => AgreeParts [key] [e] [e'] :=
  (follows_fieldOutline hd v f).bind fun _ _ h => .pure (agreeParts_single _ hkey h)

theorem follows_parts (hd : Agrees s d) (fields : List (String × Field))
    (hkeys : ∀ e ∈ fields, Doc.isOrdinary e.1 = true) :
    Follows s (parts d false v fields) (parts d true v fields)
      (AgreeParts (fields.map Prod.fst)) := by
  induction fields with
  | nil => exact .pure agreeParts_nil
  | cons e rest ih =>
    refine (follows_part hd (hkeys e (List.mem_cons_self ..))).bind fun a b hab => ?_
    refine (ih fun x hx => hkeys x (List.mem_cons_of_mem _ hx)).bind fun es fs hes => ?_
    exact .pure (hab.append hes)

theorem follows_partIfTrue (hd : Agrees s d) (hkey : Doc.isOrdinary key = true) :
    Follows s (partIfTrue d false v key f) (partIfTrue d true v key f) fun es fs =>
      ∃ names, AgreeParts names es fs := by
  refine .same_bind fun w _ => .same_bind fun isTrue _ => ?_
  split
  · exact (follows_part hd hkey).bind fun _ _ h => .pure ⟨_, h⟩
  · exact .pure ⟨_, agreeParts_nil⟩

theorem follows_partsIfTrue (hd : Agrees s d) (fields : List (String × Field))
    (hkeys : ∀ e ∈ fields, Doc.isOrdinary e.1 = true) :
    Follows s (partsIfTrue d false v fields) (partsIfTrue d true v fields) fun es fs =>
      ∃ names, AgreeParts names es fs := by
  induction fields with
  | nil => exact .pure ⟨_, agreeParts_nil⟩
  | cons e rest ih =>
    refine (follows_partIfTrue hd (hkeys e (List.mem_cons_self ..))).bind fun _ _ hab => ?_
    refine (ih fun x hx => hkeys x (List.mem_cons_of_mem _ hx)).bind fun _ _ hes => ?_
    obtain ⟨_, hab⟩ := hab
    obtain ⟨_, hes⟩ := hes
    exact .pure ⟨_, hab.append hes⟩

theorem agree_empty : Doc.Agree (.record []) (.record []) := .record .nil

theorem follows_partOrEmpty (hd : Agrees s d) {key key' : String} :
    Follows s (partOrEmpty d false v key f) (partOrEmpty d true v key' f) fun e e' =>
      ∃ x y, e = (key, x) ∧ e' = (key', y) ∧ Doc.Agree x y := by
  refine .same_bind fun w _ => ?_
  cases w with
  | none => exact .pure ⟨_, _, rfl, rfl, agree_empty⟩
  | _ => exact (follows_outline hd _).bind fun _ _ h => .pure ⟨_, _, rfl, rfl, h⟩

theorem follows_partIfNodes (hd : Agrees s d) (hkey : Doc.isOrdinary key = true) :
    Follows s (partIfNodes d false v key f) (partIfNodes d true v key f)
      (List.Forall₂ Doc.AgreeEntry) := by
  refine .same_bind fun w _ => .same_bind fun nodes _ => .same_bind fun isTrue _ => ?_
  split
  · exact (follows_outline hd w).bind fun _ _ h => .pure (.cons (agreeEntry_part _ hkey h) .nil)
  · exact .pure .nil

theorem follows_bound (hd : Agrees s d) (hkey : Doc.isOrdinary key = true) :
    Follows s (bound d false v key f) (bound d true v key f) (List.Forall₂ Doc.AgreeEntry) := by
  refine .same_bind fun w _ => .same_bind fun isNone _ => ?_
  split
  · exact .pure .nil
  · exact (follows_part hd hkey).bind fun _ _ h => .pure h.agree

/-- Whether a text begins as an ordinary key that is no key of an outline. -/
def isPartKey (key : String) : Bool :=
  2 ≤ key.toList.length && key.toList.take 2 ∉ [['c', 'o'], ['m', 'e'], ['W', 'i']]

theorem isPartKey_append (h : isPartKey key = true) (more : String) :
    isPartKey (key ++ more) = true := by
  simp only [isPartKey, Bool.and_eq_true, decide_eq_true_eq] at h ⊢
  rw [String.toList_append, List.take_append_of_le_length h.1, List.length_append]
  exact ⟨h.1.trans (Nat.le_add_right _ _), h.2⟩

theorem isOrdinary_of_isPartKey (h : isPartKey key = true) : Doc.isOrdinary key = true := by
  have hne : ∀ other, isPartKey other = false → key ≠ other := by
    rintro other hother rfl
    rw [hother] at h
    cases h
  have hcontent := hne "content" (by decide)
  have hmetadata := hne "metadata" (by decide)
  have hitem := hne "WithItem" (by decide)
  simp [Doc.isOrdinary, hcontent, hmetadata, hitem]

theorem agree_countedFrom {key : Nat → String} {xs ys : List Doc}
    (hkey : ∀ i, Doc.isOrdinary (key i) = true) (h : List.Forall₂ Doc.Agree xs ys) (i : Nat) :
    List.Forall₂ Doc.AgreeEntry (countedFrom key i xs) (countedFrom key i ys) := by
  induction h generalizing i with
  | nil => exact .nil
  | cons hxy _ ih => exact .cons (agreeEntry_part _ (hkey i) hxy) (ih (i + 1))

theorem follows_listed (hd : Agrees s d) (v : Value) :
    Follows s (listed d false v) (listed d true v) Doc.Agree :=
  (Follows.forEach fun w => follows_outline hd w).bind fun _ _ h => .pure (.list h)

/-! ## Outlines that are spread -/

/-- The one entry of an outline of a node. -/
theorem follows_entries {full simple : Doc} (hw : s.isForm w .node = true)
    (h : Outlines s w full simple) :
    Follows s (ofOutcome full.entries) (ofOutcome simple.entries) fun es fs =>
      ∃ k l x y, es = [(k, x)] ∧ fs = [(l, y)] ∧ KeyPair (s.isForm w .block) k l ∧
        Doc.AgreeEntry (k, x) (l, y) := by
  intro es hes
  rcases h.single hw with rfl | ⟨k, l, x, y, rfl, rfl, hkey, hentry⟩
  · cases hes
  · rw [run_ofOutcome, Doc.single, Doc.entries_record] at hes
    cases hes
    refine ⟨[(l, y)], ?_, k, l, x, y, rfl, rfl, hkey, hentry⟩
    rw [run_ofOutcome, Doc.single, Doc.entries_record]

theorem put_of_not_mem {es : List (String × Doc)} (h : key ∉ es.map Prod.fst) :
    Doc.put key x es = es ++ [(key, x)] := by
  induction es with
  | nil => rfl
  | cons e rest ih =>
    simp only [List.map_cons, List.mem_cons, not_or] at h
    rw [Doc.put, if_neg (Ne.symm h.1), ih h.2, List.cons_append]

/-- The outline of a block beside the parts of a loop. -/
theorem agree_merge {k l : String} (hes : AgreeParts names es fs)
    (hnames : ∀ p ∈ names, isKey true p = false) (hkey : KeyPair true k l)
    (hentry : Doc.AgreeEntry (k, x) (l, y)) :
    Doc.Agree (.record (Doc.merge es [(k, x)])) (.record (Doc.merge fs [(l, y)])) := by
  have hnot : ∀ {key}, isKey true key = true → key ∉ names := fun hkey hmem => by
    rw [hnames _ hmem] at hkey
    cases hkey
  have hk : k ∉ es.map Prod.fst := hes.ofFull ▸ hnot hkey.ofFull
  have hl : l ∉ fs.map Prod.fst := hes.ofSimple ▸ hnot hkey.ofSimple
  simp only [Doc.merge, List.foldl_cons, List.foldl_nil, put_of_not_mem hk, put_of_not_mem hl]
  exact .record (List.rel_append hes.agree (.cons hentry .nil))

/-- The key that a look finds begins as the key of a node. -/
def FindsKey (s : Store) (isBlock : Bool) (x : Look String) : Prop :=
  ∀ k, run x s = .ok k → isKey isBlock k = true

section Nodes

variable (hs : Built s) (hd : Agrees s d)

include hs hd

/-! ## Containers, types and data -/

/-- What both outlines of a node have in common: a fixed key, and contents that agree. -/
theorem follows_fixed (hv : IsNode s isBlock v n) (hkey : isKey isBlock key = true)
    (h : Doc.Agree x y) :
    Follows s (prepare d false v key x) (prepare d true v key y) (Outlines s v) :=
  follows_prepare hs hd hv (keyPair_same hkey) (.inr h)

theorem follows_container {key : Describe → Value → Look String} (hv : IsNode s isBlock v n)
    (hkey : FindsKey s isBlock (key d v)) : AgreesAt s d v (container key) := by
  refine .same_bind fun nodes _ => (follows_listed hd nodes).bind fun _ _ hlist => ?_
  exact .same_bind fun k hk => follows_fixed hs hd hv (hkey k hk) hlist

variable (hv : IsNode s false v n)

include hv

theorem follows_under (hkey : isKey false key = true) :
    AgreesAt s d v (under key f) :=
  (follows_fieldOutline hd v f).bind fun _ _ h => follows_fixed hs hd hv hkey h

theorem follows_labelUnder (hkey : FindsKey s false (label d v)) :
    AgreesAt s d v (labelUnder f) := by
  refine .same_bind fun k hk => (follows_fieldOutline hd v f).bind fun _ _ h => ?_
  exact follows_fixed hs hd hv (hkey k hk) h

theorem follows_underOrEmpty (hkey : isKey false key = true) :
    AgreesAt s d v (underOrEmpty key f) := by
  refine (follows_partOrEmpty hd).bind fun _ _ h => ?_
  obtain ⟨x, y, rfl, rfl, h⟩ := h
  exact follows_fixed hs hd hv hkey h

theorem follows_headed (hkey : isKey false key = true)
    (hfields : ∀ e ∈ fields, Doc.isOrdinary e.1 = true) : AgreesAt s d v (headed key fields) :=
  (follows_parts hd fields hfields).bind fun _ _ h => follows_fixed hs hd hv hkey h.record

theorem follows_bare (hkey : isKey false key = true) : AgreesAt s d v (bare key) :=
  follows_fixed hs hd hv hkey agree_empty

theorem follows_bareLabel (hkey : FindsKey s false (label d v)) : AgreesAt s d v bareLabel :=
  .same_bind fun k hk => follows_fixed hs hd hv (hkey k hk) agree_empty

omit hs hd in
theorem follows_exprType : AgreesAt s d v exprType := by
  refine .same_bind fun name _ => .pure ?_
  have hentry := agreeEntry_part "Type" rfl (Doc.agree_scalar (d := .text name) rfl)
  refine ⟨.record (.cons hentry .nil), fun _ => .inr ⟨"Type", "Type", _, _, rfl, rfl, ?_, hentry⟩⟩
  rw [hv.isForm, hv.block]
  exact keyPair_same (by decide)

theorem follows_undefined : AgreesAt s d v undefined :=
  follows_fixed hs hd hv (by decide) (Doc.agree_scalar rfl)

/-- A scalar field of a node as its content. -/
theorem follows_scalar (hkey : isKey false key = true) (hkept : (f, h) ∈ n.form.kept)
    (hh : scalarHint h = true) (hc : n.form.computed? f = none) :
    Follows s (do prepare d false v key (← d.doc (← field v f)))
      (do prepare d true v key (← d.doc (← field v f))) (Outlines s v) := by
  refine .same_bind fun w hw => .same_bind fun x hx => ?_
  exact follows_fixed hs hd hv hkey
    (Doc.agree_scalar (isScalar_of_field hs hd hv.node hkept hh hc hw hx))

theorem follows_dataType (hkept : (.name, h) ∈ n.form.kept) (hh : scalarHint h = true)
    (hc : n.form.computed? .name = none) : AgreesAt s d v dataType := by
  refine .same_bind fun name _ => follows_scalar hs hd hv ?_ hkept hh hc
  exact isKey_around (by decide)

theorem follows_identifier (hname : isKey false (n.form.name.map Char.toUpper) = true)
    (hkept : (.name, h) ∈ n.form.kept) (hh : scalarHint h = true)
    (hc : n.form.computed? .name = none) : AgreesAt s d v identifier := by
  refine .same_bind fun name hfound => .same_bind fun own _ => ?_
  refine follows_scalar hs hd hv (isKey_append (isKey_around ?_) _) hkept hh hc
  simp only [Label.formName, run_bind, run_node?, hv.node, ok_bind, run_pure, Option.map_some,
    Option.getD_some] at hfound
  cases hfound
  exact hname

theorem follows_delete : AgreesAt s d v delete := by
  refine .same_bind fun w _ => (Follows.forEach fun x => follows_outline hd x).bind fun _ _ h => ?_
  refine follows_fixed hs hd hv (by decide) (.record (agree_countedFrom ?_ h 0))
  exact fun i => isOrdinary_of_isPartKey (isPartKey_append (by decide) _)

/-! ## Literals and operators -/

theorem follows_literal (hkept : (.value, h) ∈ n.form.kept) (hh : scalarHint h = true) :
    AgreesAt s d v literal := by
  refine .same_bind fun type _ => .same_bind fun text _ => ?_
  exact follows_scalar hs hd hv (isKey_append (isKey_around (by decide)) _)
    hkept hh (computed?_eq_none _ (by decide))

theorem follows_worded (hword : isKey false word = true)
    (hkept : (.value, h) ∈ n.form.kept) (hh : scalarHint h = true) :
    AgreesAt s d v (worded word) := by
  refine .same_bind fun text _ => ?_
  exact follows_scalar hs hd hv (isKey_around hword) hkept hh
    (computed?_eq_none _ (by decide))

theorem follows_unary : AgreesAt s d v unary := by
  refine .same_bind fun op _ => (follows_fieldOutline hd v .operand).bind fun _ _ h => ?_
  exact follows_fixed hs hd hv (isKey_around (by decide)) h

theorem follows_binary : AgreesAt s d v binary := by
  refine .same_bind fun op _ => (follows_parts hd _ (by decide)).bind fun _ _ h => ?_
  exact follows_fixed hs hd hv (isKey_around (by decide)) h.record

theorem follows_boolean (hword : isKey false word = true)
    (hfields : ∀ e ∈ fields, Doc.isOrdinary e.1 = true) : AgreesAt s d v (boolean word fields) :=
  .same_bind fun _ _ =>
    follows_headed hs hd hv (isKey_append (isKey_around hword) _) hfields

theorem follows_augAssign (hkey : FindsKey s false (label d v)) : AgreesAt s d v augAssign :=
  .same_bind fun k hk => follows_headed hs hd hv (hkey k hk) (by decide)

theorem follows_compare : AgreesAt s d v compare := by
  refine .same_bind fun ops _ => .same_bind fun signs _ => ?_
  refine (follows_part hd rfl).bind fun _ _ hleft => .same_bind fun w _ => ?_
  refine (follows_listed hd w).bind fun _ _ hlist => ?_
  exact follows_fixed hs hd hv (isKey_around (by decide))
    (hleft.append (agreeParts_single _ rfl hlist)).record

omit hs hd hv in
/-- The two parts of a pair of numbers. -/
theorem items_of_pair (h : Hint.pair.meets s w = true) :
    ∃ x y, run (item w 0) s = .ok x ∧ run (item w 1) s = .ok y ∧ x.isScalar = true ∧
      y.isScalar = true := by
  simp only [Hint.meets] at h
  split at h
  · next x y hc =>
    rw [Bool.and_eq_true] at h
    have hnumber : ∀ {z}, Hint.isNumber z = true → z.isScalar = true := fun {z} hz => by
      cases z with
      | member m => cases hz
      | ref a => cases hz
      | _ => rfl
    refine ⟨x, y, ?_, ?_, hnumber h.1, hnumber h.2⟩
    all_goals
      cases w with
      | ref a =>
        have hplain := not_nodeList_of_sequence (s := s) (c := .tuple [x, y]) hc rfl
        simp only [item, itemAt, run_bind, run_holder_of_not hplain, ok_bind, plainItem,
          run_cell hc, pick, indexOf, run_pure, run_ite]
        rfl
      | _ => cases hc
  · cases h

theorem follows_complex (hname : isKey false n.form.name = true)
    (hkept : (.value, .pair) ∈ n.form.kept) : AgreesAt s d v complex := by
  have hvalue : ∀ {w}, run (field v .value) s = .ok w → Hint.pair.meets s w = true :=
    hs.meets_of_field hv.node hkept (computed?_eq_none _ (by decide))
  refine .same_bind fun name hfound => .same_bind fun text _ => .same_bind fun w hw => ?_
  refine .same_bind fun x hx => .same_bind fun dx hdx => .same_bind fun w' hw' => ?_
  refine .same_bind fun y hy => .same_bind fun dy hdy => ?_
  obtain ⟨x₀, _, hx₀, -, hscalar, -⟩ := items_of_pair (hvalue hw)
  obtain ⟨_, y₀, -, hy₀, -, hscalar'⟩ := items_of_pair (hvalue hw')
  cases hx₀.symm.trans hx
  cases hy₀.symm.trans hy
  simp only [Label.formName, run_bind, run_node?, hv.node, ok_bind, run_pure, Option.map_some,
    Option.getD_some] at hfound
  cases hfound
  refine follows_fixed hs hd hv (isKey_around hname) (AgreeParts.record
    ((agreeParts_single _ rfl (Doc.agree_scalar (hd.doc _ _ hscalar hdx))).append
      (agreeParts_single _ rfl (Doc.agree_scalar (hd.doc _ _ hscalar' hdy)))))

/-! ## Callables -/

/-- An argument has the full outline of its default in both of its outlines, so these need
not agree. -/
theorem follows_argument : AgreesAt s d v argument := by
  refine .same_bind fun name _ => .same_bind fun type _ => .same_bind fun text _ => ?_
  refine .bind (R := fun x y => x = y ∧ Doc.Plain x) ?_ fun x y hxy => ?_
  · refine .same_bind fun w _ => fun x hx => ⟨x, hx, rfl, ?_⟩
    obtain ⟨y, -, hxy⟩ := follows_outline hd w x hx
    exact hxy.full
  · obtain ⟨rfl, hplain⟩ := hxy
    refine follows_prepare hs hd hv (keyPair_same ?_) (.inl ⟨?_, rfl, hplain, hplain⟩)
    · exact isKey_append (isKey_append (isKey_append (isKey_around (by decide))
        _) _) _
    · simp only [Doc.isArgumentKey, String.toList_append, List.append_assoc]
      exact List.isPrefixOf_iff_prefix.mpr (List.prefix_append _ _)

theorem follows_call : AgreesAt s d v call := by
  refine .same_bind fun w _ => (Follows.forEach fun x => follows_outline hd x).bind fun _ _ h => ?_
  refine .same_bind fun name _ => ?_
  rw [h.length_eq]
  refine follows_fixed hs hd hv ?_ (.record (.cons (agreeEntry_part _ ?_ (.record ?_)) .nil))
  · exact isKey_around (by decide)
  · exact isOrdinary_of_isPartKey (isPartKey_append (isPartKey_append (by decide) _) _)
  · refine agree_countedFrom (fun i => isOrdinary_of_isPartKey ?_) h 0
    exact isPartKey_append (isPartKey_append (by decide) _) _

theorem follows_function (hword : isKey false word = true) :
    AgreesAt s d v (function word) := by
  refine .same_bind fun p _ => (follows_fieldOutline hd p .args).bind fun _ _ hargs => ?_
  refine (follows_fieldOutline hd v .body).bind fun _ _ hbody => ?_
  refine .same_bind fun p' _ => .same_bind fun name _ => ?_
  exact follows_fixed hs hd hv (isKey_append (isKey_around hword) _)
    ((agreeParts_single _ rfl hargs).append (agreeParts_single _ rfl hbody)).record

/-- A key that is numbered when simplified, and contents that agree. -/
theorem follows_keyed (hkeys : Follows s (keys false v) (keys true v) (KeyPair false))
    (h : Doc.Agree x y) :
    Follows s (do prepare d false v (← keys false v) x) (do prepare d true v (← keys true v) y)
      (Outlines s v) :=
  hkeys.bind fun _ _ hkey => follows_prepare hs hd hv hkey (.inr h)

omit hs hd hv in
theorem follows_fixedKey (hkey : isKey isBlock key = true) :
    Follows s (fixed key false v) (fixed key true v) (KeyPair isBlock) :=
  .pure (keyPair_same hkey)

theorem follows_yieldStmt : AgreesAt s d v yieldStmt := by
  refine (follows_numbered (show isKey false "YIELD-STMT" = true by decide)).bind
    fun _ _ hkeys => ?_
  refine (follows_partOrEmpty hd).bind fun _ _ h => ?_
  obtain ⟨x, y, rfl, rfl, h⟩ := h
  exact follows_prepare hs hd hv hkeys (.inr h)

/-! ## Control flow -/

theorem follows_conditional
    (hkeys : Follows s (keys false v) (keys true v) (KeyPair false)) :
    AgreesAt s d v (conditional keys) := by
  refine (follows_parts hd _ (by decide)).bind fun both both' hboth => .same_bind fun w _ => ?_
  have hrest : ∀ es fs, List.Forall₂ Doc.AgreeEntry es fs →
      Follows s (do prepare d false v (← keys false v) (.record (both ++ es)))
        (do prepare d true v (← keys true v) (.record (both' ++ fs))) (Outlines s v) :=
    fun es fs h => follows_keyed hs hd hv hkeys (.record (List.rel_append hboth.agree h))
  cases w with
  | none => exact (Follows.pure .nil).bind hrest
  | _ =>
    refine (follows_outline hd _).bind fun _ _ h => ?_
    exact (Follows.pure (.cons (agreeEntry_part _ rfl h) .nil)).bind hrest

/-- The body of a node that has a block, spread over its outline. -/
theorem follows_spread (hkept : (.body, .node .block) ∈ n.form.kept) :
    Follows s (spread d false v .body) (spread d true v .body) fun es fs =>
      ∃ k l x y, es = [(k, x)] ∧ fs = [(l, y)] ∧ KeyPair true k l ∧
        Doc.AgreeEntry (k, x) (l, y) := by
  refine .bind (R := fun full simple => ∃ w, s.isForm w .block = true ∧ Outlines s w full simple)
    ?_ fun full simple h => ?_
  · refine .same_bind fun w hw => (hd.outline w).mono fun _ _ h => ⟨w, ?_, h⟩
    exact hs.meets_of_field hv.node hkept (computed?_eq_none _ (by decide)) hw
  · obtain ⟨w, hw, h⟩ := h
    obtain ⟨g, hg, hisA⟩ := Store.isForm_iff.mp hw
    have hnode : s.isForm w .node = true :=
      Store.isForm_iff.mpr ⟨g, hg, Form.isA_trans hisA (by decide)⟩
    have hentries := follows_entries hnode h
    rwa [hw] at hentries

theorem follows_loop (hkept : (.body, .node .block) ∈ n.form.kept)
    (hfields : ∀ e ∈ fields, Doc.isOrdinary e.1 = true ∧ isKey true e.1 = false)
    (hkeys : Follows s (keys false v) (keys true v) (KeyPair false)) :
    AgreesAt s d v (loop keys fields) := by
  refine (follows_parts hd fields fun e he => (hfields e he).1).bind fun _ _ hhead => ?_
  refine (follows_spread hs hd hv hkept).bind fun _ _ hbody => ?_
  obtain ⟨k, l, x, y, rfl, rfl, hkey, hentry⟩ := hbody
  refine follows_keyed hs hd hv hkeys (agree_merge hhead (fun p hp => ?_) hkey hentry)
  obtain ⟨e, he, rfl⟩ := List.mem_map.mp hp
  exact (hfields e he).2

theorem follows_asyncLoop {first : List (String × Field)}
    (hkept : (.body, .node .block) ∈ n.form.kept)
    (hfields : ∀ e ∈ first, Doc.isOrdinary e.1 = true ∧ isKey true e.1 = false)
    (hkey : isKey false key = true) : AgreesAt s d v (asyncLoop key first) := by
  refine (follows_parts hd first fun e he => (hfields e he).1).bind fun _ _ hhead => ?_
  refine (follows_partOrEmpty hd).bind fun a b hstart => ?_
  refine (follows_part hd rfl).bind fun _ _ hfinish => ?_
  refine (follows_partOrEmpty hd).bind fun a' b' hstep => ?_
  refine (follows_spread hs hd hv hkept).bind fun _ _ hbody => ?_
  obtain ⟨k, l, x, y, rfl, rfl, hkeys, hentry⟩ := hbody
  obtain ⟨x₁, y₁, rfl, rfl, hstart⟩ := hstart
  obtain ⟨x₂, y₂, rfl, rfl, hstep⟩ := hstep
  have hparts := hhead.append ((agreeParts_single "start" rfl hstart).append
    (hfinish.append (agreeParts_single "step" rfl hstep)))
  refine follows_fixed hs hd hv hkey (agree_merge hparts (fun p hp => ?_) hkeys hentry)
  rcases List.mem_append.mp hp with hp | hp
  · obtain ⟨e, he, rfl⟩ := List.mem_map.mp hp
    exact (hfields e he).2
  · have hall : ∀ p ∈ ["start", "end", "step"], isKey true p = false := by decide
    exact hall p hp

omit hs hd hv in
theorem not_block_of_expr (h : s.isForm w .expr = true) :
    s.isForm w .node = true ∧ s.isForm w .block = false := by
  have hforms : ∀ form : Form, form.isA .expr = false ∨
      form.isA .node = true ∧ form.isA .block = false := by
    intro form
    cases form <;> decide
  obtain ⟨g, hg, hisA⟩ := Store.isForm_iff.mp h
  obtain ⟨hnode, hblock⟩ := (hforms g).resolve_left (by simp [hisA])
  simp [Store.isForm, hg, hnode, hblock]

/-- The outline of a field that holds a node. -/
theorem follows_child {g : Form} (hkept : (f, .node g) ∈ n.form.kept)
    (hc : n.form.computed? f = none) :
    Follows s (d.fieldOutline false v f) (d.fieldOutline true v f) fun full simple =>
      ∃ w, s.isForm w g = true ∧ Outlines s w full simple :=
  .same_bind fun w hw => (hd.outline w).mono fun _ _ h =>
    ⟨w, hs.meets_of_field hv.node hkept hc hw, h⟩

theorem follows_whileLoop (hcondition : (.condition, .node .expr) ∈ n.form.kept)
    (hbody : (.body, .node .block) ∈ n.form.kept)
    (hkeys : Follows s (keys false v) (keys true v) (KeyPair false)) :
    AgreesAt s d v (whileLoop keys) := by
  refine (follows_child hs hd hv hcondition (computed?_eq_none _ (by decide))).bind
    fun c c' hc => ?_
  refine (follows_child hs hd hv hbody (computed?_eq_none _ (by decide))).bind fun b b' hb => ?_
  refine hkeys.bind fun key key' hkey => ?_
  obtain ⟨w, hw, hc⟩ := hc
  obtain ⟨u, hu, hb⟩ := hb
  obtain ⟨hnode, hnot⟩ := not_block_of_expr hw
  have hblock : s.isForm u .node = true := by
    obtain ⟨g, hg, hisA⟩ := Store.isForm_iff.mp hu
    exact Store.isForm_iff.mpr ⟨g, hg, Form.isA_trans hisA (by decide)⟩
  refine (follows_entries hnode hc).bind fun _ _ h => ?_
  refine (follows_entries hblock hb).bind fun _ _ h' => ?_
  obtain ⟨k, l, x, y, rfl, rfl, hk, hentry⟩ := h
  obtain ⟨k', l', x', y', rfl, rfl, hk', hentry'⟩ := h'
  rw [hnot] at hk
  rw [hu] at hk'
  have hne := (ne_of_isKey hk'.ofFull hk.ofFull).symm
  have hne' := (ne_of_isKey hk'.ofSimple hk.ofSimple).symm
  refine follows_prepare hs hd hv hkey (.inr ?_)
  simp only [Doc.merge, List.foldl_cons, List.foldl_nil, Doc.put, if_neg hne, if_neg hne']
  exact .record (.cons hentry (.cons hentry' .nil))

theorem follows_caseBranch : AgreesAt s d v caseBranch := by
  refine .same_bind fun w _ => (follows_caseKey _).bind fun key key' hkey => ?_
  have hrest : ∀ es fs, List.Forall₂ Doc.AgreeEntry es fs →
      Follows s (do prepare d false v key (.record (es ++ [← part d false v "body" .body])))
        (do prepare d true v key' (.record (fs ++ [← part d true v "body" .body])))
        (Outlines s v) := by
    intro es fs h
    refine (follows_part hd rfl).bind fun _ _ hbody => ?_
    exact follows_prepare hs hd hv hkey (.inr (.record (List.rel_append h hbody.agree)))
  cases w with
  | none => exact (Follows.pure .nil).bind hrest
  | _ =>
    refine (follows_outline hd _).bind fun _ _ h => ?_
    exact (Follows.pure (.cons (agreeEntry_part _ rfl h) .nil)).bind hrest

theorem follows_switch : AgreesAt s d v switch := by
  refine (follows_numbered (show isKey false "SWITCH-STMT" = true by decide)).bind
    fun _ _ hkeys => .same_bind fun cases _ => ?_
  refine .same_bind fun count _ => ?_
  refine (Follows.mapM fun i _ => .same_bind fun w _ => follows_outline hd w).bind fun _ _ h => ?_
  refine (follows_part hd rfl).bind fun _ _ hvalue => ?_
  refine follows_prepare hs hd hv hkeys (.inr (hvalue.append (agreeParts_single _ rfl ?_)).record)
  exact .record (agree_countedFrom
    (fun i => isOrdinary_of_isPartKey (isPartKey_append (by decide) _)) h 0)

theorem follows_goto : AgreesAt s d v goto := by
  refine .same_bind fun target _ => .same_bind fun name _ => ?_
  exact follows_fixed hs hd hv (isKey_around (by decide)) agree_empty

/-! ## Exceptions, contexts and comprehensions -/

theorem follows_throwStmt : AgreesAt s d v throwStmt := by
  refine (follows_numbered (show isKey false "THROW-STMT" = true by decide)).bind
    fun key key' hkeys => ?_
  refine .same_bind fun w _ => .same_bind fun isTrue _ => ?_
  have hrest : ∀ x y, Doc.Agree x y → Follows s (prepare d false v key x) (prepare d true v key' y)
      (Outlines s v) := fun x y h => follows_prepare hs hd hv hkeys (.inr h)
  split
  · exact (follows_fieldOutline hd v .exception).bind hrest
  · exact (Follows.pure (Doc.agree_scalar rfl)).bind hrest

theorem follows_guarded {always sometimes : List (String × Field)}
    (hkey : isKey false key = true)
    (halways : ∀ e ∈ always, Doc.isOrdinary e.1 = true)
    (hsometimes : ∀ e ∈ sometimes, Doc.isOrdinary e.1 = true) :
    AgreesAt s d v (guarded key always sometimes) := by
  refine (follows_numbered hkey).bind fun _ _ hkeys => ?_
  refine (follows_parts hd always halways).bind fun _ _ hhead => ?_
  refine (follows_partsIfTrue hd sometimes hsometimes).bind fun _ _ htail => ?_
  obtain ⟨_, htail⟩ := htail
  exact follows_prepare hs hd hv hkeys (.inr (hhead.append htail).record)

omit hs hv in
/-- An item of a managed context is no node: it has a key more in its full outline. -/
theorem follows_withItem (hv : s.isForm v .node = false) : AgreesAt s d v withItem := by
  have hrest : ∀ key l, key = l ∧ isKey false key = true → Follows s
      (do return .single "WithItem" (.single key (← d.fieldOutline false v .contextExpr)))
      (do return .single l (← d.fieldOutline true v .contextExpr)) (Outlines s v) := by
    rintro key _ ⟨rfl, hkey⟩
    refine (follows_fieldOutline hd v .contextExpr).bind fun _ _ h => .pure ⟨?_, ?_⟩
    · exact (Doc.Agree.record (.cons (agreeEntry_part _ (isOrdinary_of_isKey hkey) h) .nil)).item
    · rw [hv]
      nofun
  refine .same_bind fun w _ => .same_bind fun isTrue _ => ?_
  cases isTrue with
  | true =>
    refine .same_bind fun text _ => ?_
    exact (Follows.pure ⟨rfl, isKey_around (by decide)⟩).bind hrest
  | false => exact (Follows.pure ⟨rfl, by decide⟩).bind hrest

omit hs in
theorem follows_withStmt : AgreesAt s d v withStmt := by
  refine .same_bind fun w _ => (follows_listed hd w).bind fun _ _ hitems => ?_
  refine (follows_part hd rfl).bind fun _ _ hbody => .pure ?_
  have hentry := agreeEntry_part "WITH-STMT" rfl
    ((agreeParts_single "items" rfl hitems).append hbody).record
  refine ⟨.record (.cons hentry .nil), fun _ => .inr ⟨_, _, _, _, rfl, rfl, ?_, hentry⟩⟩
  rw [hv.isForm, hv.block]
  exact keyPair_same (by decide)

theorem follows_clause (hkey : FindsKey s false (label d v)) : AgreesAt s d v clause := by
  refine (follows_partIfNodes hd rfl).bind fun _ _ hconditions => ?_
  refine (follows_parts hd _ (by decide)).bind fun _ _ hhead => .same_bind fun k hk => ?_
  refine (follows_hashed (hkey k hk)).bind fun _ _ hkeys => ?_
  exact follows_prepare hs hd hv hkeys (.inr (.record (List.rel_append hhead.agree hconditions)))

theorem follows_comprehension (hkey : FindsKey s false (label d v)) :
    AgreesAt s d v comprehension := by
  refine (follows_part hd rfl).bind fun _ _ hgenerators => .same_bind fun k hk => ?_
  refine (follows_hashed (hkey k hk)).bind fun _ _ hkeys => ?_
  exact follows_prepare hs hd hv hkeys (.inr hgenerators.record)

theorem follows_collected (hkey : FindsKey s false (label d v)) : AgreesAt s d v collected := by
  refine .same_bind fun k hk => (follows_hashed (hkey k hk)).bind fun _ _ hkeys => ?_
  refine (follows_partIfNodes hd rfl).bind fun _ _ hgenerators => ?_
  refine (follows_part hd rfl).bind fun _ _ helement => ?_
  exact follows_prepare hs hd hv hkeys
    (.inr (.record (List.rel_append helement.agree hgenerators)))

theorem follows_generator : AgreesAt s d v generator := by
  refine (follows_hashed (show isKey false "GENERATOR-EXPR" = true by decide)).bind
    fun _ _ hkeys => ?_
  refine (follows_parts hd _ (by decide)).bind fun _ _ h => ?_
  exact follows_prepare hs hd hv hkeys (.inr h.record)

/-! ## Classes -/

omit hs hd hv in
theorem isKey_of_classKey {word more k : String} (hword : isKey isBlock word = true)
    (h : run (classKey d v word more) s = .ok k) : isKey isBlock k = true := by
  rw [classKey, run_bind] at h
  obtain ⟨sign, -, h⟩ := bind_eq_ok.mp h
  rw [run_bind] at h
  obtain ⟨name, -, h⟩ := bind_eq_ok.mp h
  cases h
  exact isKey_append (isKey_around (isKey_around hword)) _

omit hs hd hv in
theorem AgreeParts.put (h : AgreeParts names es fs) (hkey : Doc.isOrdinary key = true)
    (hxy : Doc.Agree x y) :
    Doc.Agree (.record (Doc.put key x es)) (.record (Doc.put key y fs)) := by
  refine .record ?_
  obtain ⟨hagree, hfull, hsimple⟩ := h
  have hnames := hfull.trans hsimple.symm
  clear hfull hsimple
  induction hagree with
  | nil => exact .cons (agreeEntry_part _ hkey hxy) .nil
  | @cons e f es fs hef hrest ih =>
    obtain ⟨k, a⟩ := e
    obtain ⟨l, b⟩ := f
    simp only [List.map_cons, List.cons.injEq] at hnames
    obtain ⟨rfl, hnames⟩ := hnames
    rw [Doc.put, Doc.put]
    split
    · exact .cons (agreeEntry_part _ hkey hxy) hrest
    · exact .cons hef (ih hnames)

omit hs hv in
theorem follows_classParts (v : Value) :
    Follows s (classParts d false v) (classParts d true v) fun es fs =>
      ∃ names, AgreeParts names es fs :=
  follows_partsIfTrue hd _ (by decide)

theorem follows_classDecl : AgreesAt s d v classDecl := by
  refine .same_bind fun mark _ => .same_bind fun k hk => ?_
  refine (follows_classParts hd v).bind fun _ _ h => ?_
  obtain ⟨_, h⟩ := h
  exact follows_fixed hs hd hv (isKey_of_classKey (by decide) hk) h.record

theorem follows_classDef : AgreesAt s d v classDef := by
  refine .same_bind fun mark _ => .same_bind fun k hk => ?_
  refine (follows_classParts hd v).bind fun es fs h => .same_bind fun body _ => ?_
  obtain ⟨_, h⟩ := h
  have hkey : isKey false k = true := isKey_of_classKey (by decide) hk
  have hrest : ∀ x y, Doc.Agree x y →
      Follows s (prepare d false v k x) (prepare d true v k y) (Outlines s v) :=
    fun _ _ h => follows_fixed hs hd hv hkey h
  split
  · exact (Follows.pure h.record).bind hrest
  · refine .same_bind fun _ _ => (follows_outline hd body).bind fun x y hxy => ?_
    exact (Follows.pure (h.put rfl hxy)).bind hrest

theorem follows_typeDecl (hword : isKey false word = true)
    (hfields : ∀ e ∈ fields, Doc.isOrdinary e.1 = true) :
    AgreesAt s d v (typeDecl word fields) := by
  refine .same_bind fun k hk => (follows_partsIfTrue hd fields hfields).bind fun _ _ h => ?_
  obtain ⟨_, h⟩ := h
  exact follows_fixed hs hd hv (isKey_of_classKey hword hk) h.record

/-! ## Packages, imports and subscripts -/

theorem follows_target : AgreesAt s d v target := by
  refine .same_bind fun layout _ => .same_bind fun triple _ => ?_
  exact follows_fixed hs hd hv (by decide) (Doc.agree_scalar rfl)

theorem follows_package (hkey : FindsKey s false (label d v)) : AgreesAt s d v package := by
  refine .same_bind fun w _ => (follows_listed hd w).bind fun _ _ hpackages => ?_
  refine .same_bind fun u _ => (follows_listed hd u).bind fun _ _ hmodules => ?_
  refine .same_bind fun k hk => follows_fixed hs hd hv (hkey k hk) ?_
  exact ((agreeParts_single _ rfl hmodules).append (agreeParts_single _ rfl hpackages)).record

theorem follows_importedName : AgreesAt s d v importedName := by
  have hrest : ∀ asname own : String, Follows s
      (prepare d false v ("Alias [" ++ own ++ asname ++ "]") (.text ""))
      (prepare d true v ("Alias [" ++ own ++ asname ++ "]") (.text "")) (Outlines s v) := by
    intro asname own
    exact follows_fixed hs hd hv (isKey_append (isKey_around (by decide)) _) (Doc.agree_scalar rfl)
  refine .same_bind fun w _ => .same_bind fun isTrue _ => ?_
  split
  · exact .same_bind fun text _ => .same_bind fun asname _ => .same_bind fun own _ =>
      hrest asname own
  · exact .same_bind fun asname _ => .same_bind fun own _ => hrest asname own

theorem follows_importNames (hkey : isKey false key = true) :
    AgreesAt s d v (importNames key) :=
  .same_bind fun w _ => (follows_listed hd w).bind fun _ _ h => follows_fixed hs hd hv hkey h

theorem follows_importFrom (hword : isKey false word = true) :
    AgreesAt s d v (importFrom word) := by
  refine .same_bind fun source _ => .same_bind fun w _ => ?_
  refine (follows_listed hd w).bind fun _ _ h => ?_
  exact follows_fixed hs hd hv (isKey_append (isKey_around hword) _) h

theorem follows_subscript : AgreesAt s d v subscript := by
  refine (follows_part hd rfl).bind fun a b hindexed => ?_
  refine .same_bind fun w _ => .same_bind fun isNone _ => ?_
  have hrest : ∀ e f, Doc.AgreeEntry e f → Follows s
      (do
        let upper ← bound d false v "upper" .upper
        let step ← bound d false v "step" .step
        prepare d false v "SubscriptExpr" (.record ([a, e] ++ upper ++ step)))
      (do
        let upper ← bound d true v "upper" .upper
        let step ← bound d true v "step" .step
        prepare d true v "SubscriptExpr" (.record ([b, f] ++ upper ++ step)))
      (Outlines s v) := by
    intro e f hef
    refine (follows_bound hd rfl).bind fun _ _ hupper => ?_
    refine (follows_bound hd rfl).bind fun _ _ hstep => ?_
    refine follows_fixed hs hd hv (by decide) (.record ?_)
    exact List.rel_append (List.rel_append (List.rel_append hindexed.agree (.cons hef .nil)) hupper)
      hstep
  have hentry : ∀ {names e f}, AgreeParts names [e] [f] → Doc.AgreeEntry e f := fun h => by
    cases h.agree with
    | cons hef _ => exact hef
  split
  · exact (follows_part hd rfl).bind fun e f h => hrest e f (hentry h)
  · exact (follows_part hd rfl).bind fun e f h => hrest e f (hentry h)

end Nodes

end Rules

end Outline

end ProgramTree
