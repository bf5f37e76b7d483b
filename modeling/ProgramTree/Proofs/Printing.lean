/-
How operations are written, and that they are read back as they were.

An operation is a tree of signs over names and numbers. Its text is stated here once
more, as a plain function of the tree and a level, so that later arguments about
characters need not know of pens. The function has to earn that: writing the term of
an operation puts exactly these characters on the pen, and the grammar of the
language reads exactly that term from them. The second fact compares the levels that
the writer asks for with those of the productions, which are stated on their own.
-/
import ProgramTree.Proofs.Reading
import ProgramTree.Target.Source

namespace ProgramTree.Target

open Reading

/-- A tree of signs over names and numbers. -/
inductive Operation
  | use (id : String)
  | number (n : Nat)
  | op (sign : BinarySign) (left right : Operation)
deriving DecidableEq, Repr

namespace Operation

/-- The term of an operation. -/
def term : Operation → Term
  | .use id => .load id
  | .number n => .constant (.int n)
  | .op sign left right => .binary left.term sign right.term

/-- How many nodes lie on the longest way down. -/
def height : Operation → Nat
  | .use _ | .number _ => 1
  | .op _ left right => max left.height right.height + 1

/-- All names are names of the language. -/
def Named : Operation → Prop
  | .use id => IsName id
  | .number _ => True
  | .op _ left right => left.Named ∧ right.Named

/-- The value of an operation, for any meaning of names, numbers and signs. -/
def eval {α : Type} (name : String → α) (number : Nat → α) (apply : BinarySign → α → α → α) :
    Operation → α
  | .use id => name id
  | .number n => number n
  | .op sign left right => apply sign (left.eval name number apply) (right.eval name number apply)

/-- The text of an operation at a level. -/
def text : Operation → Level → List Char
  | .use id, _ => id.toList
  | .number n, _ => (toString n).toList
  | .op sign left right, level =>
    let body := left.text sign.leftLevel ++
      ' ' :: (sign.text.toList ++ ' ' :: right.text sign.rightLevel)
    if sign.level < level then '(' :: (body ++ [')']) else body

/-- The tokens of an operation at a level. -/
def tokens : Operation → Level → List Token
  | .use id, _ => [.word id.toList]
  | .number n, _ => [.number n]
  | .op sign left right, level =>
    let body := left.tokens sign.leftLevel ++ .sign sign :: right.tokens sign.rightLevel
    if sign.level < level then .opening :: (body ++ [.closing]) else body

/-- Different operations have different terms. -/
theorem term_injective : ∀ {e e' : Operation}, e.term = e'.term → e = e'
  | .use _, .use _, h => by cases h; rfl
  | .number n, .number m, h => by
    rw [term, term, Term.constant.injEq, Doc.int.injEq, Int.natCast_inj] at h
    rw [h]
  | .op _ _ _, .op _ _ _, h => by
    rw [term, term, Term.binary.injEq] at h
    rw [term_injective h.1, h.2.1, term_injective h.2.2]
  | .use _, .number _, h | .use _, .op _ _ _, h | .number _, .use _, h
  | .number _, .op _ _ _, h | .op _ _ _, .use _, h | .op _ _ _, .number _, h => nomatch h

/-! ## Writing -/

/-- Writing goes on with what has been written. -/
theorem ok_andThen {α β : Type} (a : α) (f : α → Except Fault β) : (Except.ok a >>= f) = f a :=
  rfl

/-- Writes two operands with a sign between them. -/
def writeOperands (left : Term) (sign : BinarySign) (right : Term) : Writing := fun p => do
  Term.ranked [left]
  let p ← left.write sign.leftLevel p
  let p := p.write (" " ++ sign.text ++ " ")
  Term.ranked [right]
  right.write sign.rightLevel p

theorem write_binary (left right : Term) (sign : BinarySign) (level : Level) (p : Pen) :
    (Term.binary left sign right).write level p =
      Writing.delimitIf (sign.level < level) "(" ")" (writeOperands left sign right) p :=
  rfl

theorem write_giveBack (value : Term) (h : value.isTrue = true) (level : Level) (p : Pen) :
    (Term.giveBack value).write level p =
      value.write Level.test ((p.fill "return").write " ") :=
  if_pos h

/-- Levels can be given to operations. -/
theorem ranked_term (e : Operation) : Term.ranked [e.term] = .ok () := by
  cases e <;> rfl

theorem putAll_putAll (p : Pen) (ds es : List Doc) :
    (p.putAll ds.toArray).putAll es.toArray = p.putAll (ds ++ es).toArray := by
  simp [Pen.putAll]

theorem write_eq_putAll (p : Pen) (s : String) : p.write s = p.putAll [Doc.text s].toArray := by
  simp [Pen.write, Pen.put, Pen.putAll]

/-- **Writing.** The term of an operation is written as texts, and they make up the
text of the operation. -/
theorem write_term (e : Operation) : ∀ (level : Level) (p : Pen), ∃ ds : List String,
    e.term.write level p = .ok (p.putAll (ds.map Doc.text).toArray) ∧
      ds.flatMap String.toList = e.text level := by
  induction e with
  | use id =>
    intro level p
    refine ⟨[id], ?_, by simp [text]⟩
    show Except.ok (p.put (.text id)) = _
    simp [Pen.put, Pen.putAll]
  | number n =>
    intro level p
    refine ⟨[toString n], ?_, by simp [text]⟩
    show Except.ok (p.write (toString (n : Int))) = _
    rw [write_eq_putAll]
    rfl
  | op sign left right ihl ihr =>
    intro level p
    -- The body of the operation, whatever stands before it.
    have hbody : ∀ p : Pen, ∃ ds : List String,
        writeOperands left.term sign right.term p = .ok (p.putAll (ds.map Doc.text).toArray) ∧
        ds.flatMap String.toList = left.text sign.leftLevel ++
          ' ' :: (sign.text.toList ++ ' ' :: right.text sign.rightLevel) := by
      intro p
      obtain ⟨ds, hds, htl⟩ := ihl sign.leftLevel p
      obtain ⟨es, hes, htr⟩ := ihr sign.rightLevel
        ((p.putAll (ds.map Doc.text).toArray).write (" " ++ sign.text ++ " "))
      refine ⟨ds ++ [" " ++ sign.text ++ " "] ++ es, ?_, ?_⟩
      · simp only [writeOperands, ranked_term, hds, hes, ok_andThen]
        rw [write_eq_putAll, putAll_putAll, putAll_putAll]
        simp
      · simp [← htl, ← htr]
    rw [term, write_binary, Writing.delimitIf]
    by_cases hlevel : sign.level < level
    · obtain ⟨ds, hds, ht⟩ := hbody (p.write "(")
      refine ⟨["("] ++ ds ++ [")"], ?_, by simp [text, hlevel, ht]⟩
      rw [if_pos (by simpa using hlevel), hds, ok_andThen]
      simp only [write_eq_putAll, putAll_putAll, List.map_append, List.map_cons, List.map_nil]
      rfl
    · obtain ⟨ds, hds, ht⟩ := hbody p
      refine ⟨ds, ?_, by simp [text, hlevel, ht]⟩
      rw [if_neg (by simpa using hlevel), hds]

/-- Texts are joined one after the other. -/
theorem texts_map_text (ds : List String) : ∀ i, Pen.texts i (ds.map Doc.text) = .ok ds := by
  induction ds with
  | nil => intro i; rfl
  | cons d ds ih =>
    intro i
    rw [List.map_cons, Pen.texts, ih (i + 1)]
    rfl

/-- The source of a statement that gives back an operation. -/
theorem source_giveBack (e : Operation) : (Term.giveBack e.term).source =
    .ok (String.ofList ("return ".toList ++ e.text Level.test)) := by
  have htrue : e.term.isTrue = true := by
    cases e <;> rfl
  obtain ⟨ds, hds, ht⟩ := e.write_term Level.test ((Pen.start.fill "return").write " ")
  have hstart : (Pen.start.fill "return").write " " =
      Pen.start.putAll (["return", " "].map Doc.text).toArray := rfl
  rw [Term.source, write_giveBack _ htrue, hds, ok_andThen, hstart, putAll_putAll, ← List.map_append,
    Pen.joined]
  rw [show (Pen.start.putAll ((["return", " "] ++ ds).map Doc.text).toArray).pieces.toList =
    (["return", " "] ++ ds).map Doc.text by simp [Pen.putAll, Pen.start], texts_map_text, ok_andThen]
  refine congrArg Except.ok (String.toList_inj.mp ?_)
  rw [String.toList_join, String.toList_ofList, List.flatMap_append, ht]
  rfl

/-! ## Cutting -/

/-- A text that does not go on with a name or a number. -/
def Stops (rest : List Char) : Prop :=
  ∀ c ∈ rest.head?, isNameChar c = false

theorem stops_nil : Stops [] := by
  simp [Stops]

theorem stops_cons {c : Char} (h : isNameChar c = false) (rest : List Char) :
    Stops (c :: rest) := by
  intro d hd
  rw [List.head?_cons, Option.mem_some] at hd
  exact hd ▸ h

/-- The characters of a kind are taken up to where a text stops. -/
theorem takeWhile_dropWhile_of_stops {p : Char → Bool} {cs rest : List Char}
    (hcs : ∀ c ∈ cs, p c = true) (hrest : ∀ c ∈ rest.head?, p c = false) :
    (cs ++ rest).takeWhile p = cs ∧ (cs ++ rest).dropWhile p = rest := by
  rw [List.takeWhile_append_of_pos hcs, List.dropWhile_append_of_pos hcs]
  cases rest with
  | nil => simp
  | cons c rest =>
    have hc : p c = false := hrest c (by simp)
    simp [hc]

/-- What starts a name is none of the characters with a meaning of their own. -/
theorem ne_of_isNameStart {c : Char} (h : isNameStart c = true) : c ≠ '(' ∧ c ≠ ')' := by
  constructor <;> (rintro rfl; exact absurd h (by decide))

/-- A digit does not start a name, nor does it have another meaning. -/
theorem ne_of_isDigit {c : Char} (h : c.isDigit = true) :
    c ≠ '(' ∧ c ≠ ')' ∧ isNameStart c = false := by
  refine ⟨?_, ?_, ?_⟩
  · rintro rfl; exact absurd h (by decide)
  · rintro rfl; exact absurd h (by decide)
  · obtain ⟨hlow, hhigh⟩ := Char.isDigit_iff_toNat.mp h
    change 48 ≤ c.toNat at hlow
    change c.toNat ≤ 57 at hhigh
    rw [← Bool.not_eq_true, isNameStart_iff, isAlpha_iff]
    rintro ((hstart | hstart) | rfl | hstart)
    · omega
    · omega
    · exact absurd hhigh (by decide)
    · omega

/-- Letters that make up a name are one token. -/
theorem token?_word {c : Char} {cs rest : List Char} (hc : isNameStart c = true)
    (hcs : ∀ d ∈ cs, isNameChar d = true) (hrest : Stops rest) :
    token? (c :: (cs ++ rest)) = some (.word (c :: cs), rest) := by
  obtain ⟨hopen, hclose⟩ := ne_of_isNameStart hc
  obtain ⟨htake, hdrop⟩ := takeWhile_dropWhile_of_stops hcs hrest
  rw [token?, if_neg hopen, if_neg hclose, if_pos hc, htake, hdrop]

/-- A name is one token. -/
theorem token?_name {id : String} {rest : List Char} (hid : IsName id) (hrest : Stops rest) :
    token? (id.toList ++ rest) = some (.word id.toList, rest) := by
  obtain ⟨⟨c, cs, hcs, hc, hall⟩, -⟩ := hid
  rw [hcs]
  exact token?_word hc hall hrest

/-- A number is one token, and the token has its value. -/
theorem token?_number (n : Nat) {rest : List Char} (hrest : Stops rest) :
    token? ((toString n).toList ++ rest) = some (.number n, rest) := by
  rw [Nat.toString_eq_ofList_toDigits, String.toList_ofList]
  have hdigits : ∀ c ∈ Nat.toDigits 10 n, c.isDigit = true := fun c hc =>
    Nat.isDigit_of_mem_toDigits (by decide) (by decide) hc
  have hvalue : Nat.ofDigitChars 10 (Nat.toDigits 10 n) 0 = n := Nat.ofDigitChars_ten_toDigits
  cases hds : Nat.toDigits 10 n with
  | nil => exact absurd hds Nat.toDigits_ne_nil
  | cons c cs =>
    rw [hds] at hdigits hvalue
    obtain ⟨hopen, hclose, hname⟩ := ne_of_isDigit (hdigits c List.mem_cons_self)
    have hstop : ∀ d ∈ rest.head?, d.isDigit = false ∧ isNameStart d = false := by
      intro d hd
      have := hrest d hd
      rw [isNameChar, Bool.or_eq_false_iff] at this
      exact ⟨this.2, this.1⟩
    obtain ⟨htake, hdrop⟩ := takeWhile_dropWhile_of_stops
      (fun d hd => hdigits d (List.mem_cons_of_mem c hd)) (fun d hd => (hstop d hd).1)
    have hnext : ¬ rest.head?.any isNameStart = true := by
      rw [Option.any_eq_true]
      rintro ⟨d, hd, hd'⟩
      rw [(hstop d hd).2] at hd'
      exact absurd hd' (by decide)
    rw [List.cons_append, token?, if_neg hopen, if_neg hclose, if_neg (by rw [hname]; decide),
      if_pos (hdigits c List.mem_cons_self), htake, hdrop, if_neg hnext, hvalue]

/-- A sign between blanks is one token. -/
theorem scans_sign (s : BinarySign) (rest : List Char) :
    Scans (' ' :: (s.text.toList ++ ' ' :: rest)) [.sign s] rest := by
  have htoken : token? (s.text.toList ++ ' ' :: rest) = some (.sign s, ' ' :: rest) := by
    cases s <;> rfl
  exact .blank (.token htoken (.blank (.refl rest)))

/-- **Cutting.** The text of an operation is cut into its tokens. -/
theorem scans_text (e : Operation) (hnamed : e.Named) :
    ∀ (level : Level) {rest : List Char}, Stops rest →
      Scans (e.text level ++ rest) (e.tokens level) rest := by
  induction e with
  | use id =>
    intro level rest hrest
    exact .token (token?_name hnamed hrest) (.refl rest)
  | number n =>
    intro level rest hrest
    exact .token (token?_number n hrest) (.refl rest)
  | op sign left right ihl ihr =>
    intro level rest hrest
    have hbody : ∀ {rest : List Char}, Stops rest →
        Scans (left.text sign.leftLevel ++
          ' ' :: (sign.text.toList ++ ' ' :: (right.text sign.rightLevel ++ rest)))
          (left.tokens sign.leftLevel ++ ([.sign sign] ++ right.tokens sign.rightLevel)) rest := by
      intro rest hrest
      exact (ihl hnamed.1 sign.leftLevel (stops_cons (by decide) _)).trans
        ((scans_sign sign _).trans (ihr hnamed.2 sign.rightLevel hrest))
    rw [text, tokens]
    by_cases hlevel : sign.level < level
    · have hclose : Scans (')' :: rest) [.closing] rest := .token rfl (.refl rest)
      have := (hbody (stops_cons (by decide) rest)).trans hclose
      rw [if_pos hlevel, if_pos hlevel]
      refine .token (show token? ('(' :: _) = some (.opening, _) from rfl) ?_
      simpa using this
    · rw [if_neg hlevel, if_neg hlevel]
      simpa using hbody hrest

/-! ## Reading back -/

/-- The writer asks for operands at least as tight as the production does. -/
theorem production_le (s : BinarySign) : (production s).level = s.level ∧
    (production s).left ≤ s.leftLevel ∧ (production s).right ≤ s.rightLevel := by
  cases s <;> decide

/-- **Reading back.** The tokens of an operation say its term. -/
theorem derives_tokens (e : Operation) (hnamed : e.Named) :
    ∀ level : Level, Derives level (e.tokens level) e.term := by
  induction e with
  | use id =>
    intro level
    have hw : String.ofList id.toList ∉ keywords := by
      rw [String.ofList_toList]
      exact hnamed.2
    have hname : Derives level [.word id.toList] _ := .name hw
    rwa [String.ofList_toList] at hname
  | number n => exact fun level => .number n
  | op sign left right ihl ihr =>
    intro level
    obtain ⟨hsame, hl, hr⟩ := production_le sign
    have hbody : ∀ {level : Level}, level ≤ sign.level → Derives level
        (left.tokens sign.leftLevel ++ .sign sign :: right.tokens sign.rightLevel)
        (.binary left.term sign right.term) := by
      intro level hlevel
      exact .operation (hsame ▸ hlevel) ((ihl hnamed.1 _).weaken hl) ((ihr hnamed.2 _).weaken hr)
    have htest : Level.test ≤ sign.level := by
      cases sign <;> decide
    rw [tokens, term]
    by_cases hlevel : sign.level < level
    · rw [if_pos hlevel]
      exact .group (hbody htest)
    · rw [if_neg hlevel]
      exact hbody (Nat.le_of_not_lt hlevel)

end Operation

end ProgramTree.Target
