/-
What the parentheses around returned operations do to their meaning.

The touch-up looks for two names with a sign between them right behind the word
`return`. It sees characters only. The second name may be the whole right operand, and
then the parentheses change nothing. It may also be only where the right operand
starts: then the parentheses cut the operand in two and the text says something else,
`regroup` of what was meant. And it may be only the first letters of a longer name, and
then the text says nothing at all. `straddles` is the last two cases, and
`reads_touched_iff` says that they are all that can go wrong.

Operands are taken apart along their left edge, because that is where the touch-up
looks. `Continues` is what the rest of a text behind such an operand does: to the cutting
into tokens, to the reading, and to later touches, of which there are none.
-/
import ProgramTree.Proofs.Printing
import ProgramTree.Target.Emit

namespace ProgramTree.Target.Operation

open Reading Returned

/-! ## The left edge -/

/-- The name that an operation consists of. -/
def name? : Operation → Option String
  | .use id => some id
  | _ => none

/-- The name that the text of an operation starts with. -/
def start? : Operation → Level → Option String
  | .use id, _ => some id
  | .number _, _ => none
  | .op sign left _, level => if sign.level < level then none else left.start? sign.leftLevel

/-- The operation that the text of an operation starts with, if it starts with a name:
the name, the sign and the right operand. -/
def front? : Operation → Level → Option (String × BinarySign × Operation)
  | .use _, _ | .number _, _ => none
  | .op sign left right, level =>
    if sign.level < level then none
    else
      match left.name? with
      | some id => some (id, sign, right)
      | none => left.front? sign.leftLevel

/-- The leftmost operand. -/
def leftmost : Operation → Operation
  | .op _ left _ => left.leftmost
  | e => e

/-- The operation with another one in the place of the leftmost operand. -/
def plug (z : Operation) : Operation → Operation
  | .op sign left right => .op sign (plug z left) right
  | _ => z

/-- The operation in which the first sign takes only the leftmost part of its right
operand. -/
def regroup : Operation → Operation
  | .op sign left right =>
    match left.name? with
    | some id => plug (.op sign (.use id) right.leftmost) right
    | none => .op sign left.regroup right
  | e => e

/-! ## What is touched -/

/-- A name that starts with a letter of the narrow alphabet. -/
def startsPlain (id : String) : Bool :=
  id.toList.head?.any isWordStart

/-- A name that the touch-up takes as one word. -/
def isWhole (id : String) : Bool :=
  id.toList.all Text.isWordChar

/-- The signs that the touch-up looks for. -/
def isTouched : BinarySign → Bool
  | .add | .sub | .mult | .div => true
  | _ => false

/-- What the touch-up takes for an operation on two names: the first name, the sign,
its right operand, and the name that the operand starts with. -/
def taken? (e : Operation) : Option (String × BinarySign × Operation × String) :=
  match e.front? Level.test with
  | none => none
  | some (x, sign, right) =>
    match right.start? sign.rightLevel with
    | none => none
    | some y =>
      if startsPlain x && isWhole x && isTouched sign && startsPlain y then some (x, sign, right, y)
      else none

/-- The touch-up closes its parentheses inside the right operand of the first sign. -/
def straddles (e : Operation) : Bool :=
  match e.taken? with
  | none => false
  | some (_, _, right, y) => right ≠ .use y || !isWhole y

/-! ## Kinds of characters -/

/-- The letters that start a word are part of it, and start a name. -/
theorem of_isWordStart {c : Char} (h : isWordStart c = true) :
    Text.isWordChar c = true ∧ isNameStart c = true := by
  rw [isWordStart, Bool.or_eq_true, beq_iff_eq] at h
  refine ⟨?_, isNameStart_iff.mpr (h.imp_right .inl)⟩
  rcases h with h | rfl
  · have hcode := isAlpha_iff.mp h
    rw [Text.isWordChar, if_pos (by omega), Char.isAlphanum, h]
    rfl
  · decide

/-- A character of a name that is in no word could start a name. -/
theorem isNameStart_of_not_isWordChar {c : Char} (h : isNameChar c = true)
    (hword : Text.isWordChar c = false) : isNameStart c = true := by
  by_cases hc : c.toNat < 0x80
  · rw [Text.isWordChar, if_pos hc, Char.isAlphanum, Bool.or_eq_false_iff, Bool.or_eq_false_iff]
      at hword
    rw [isNameChar, hword.1.2, Bool.or_false] at h
    exact h
  · exact isNameStart_iff.mpr (.inr (.inr (Nat.le_of_not_lt hc)))

/-- A character of a word could be part of a name. -/
theorem isNameChar_of_isWordChar {c : Char} (h : Text.isWordChar c = true) :
    isNameChar c = true := by
  by_cases hc : c.toNat < 0x80
  · rw [Text.isWordChar, if_pos hc, Char.isAlphanum] at h
    rw [isNameChar, isNameStart]
    revert h
    cases c.isAlpha <;> cases c.isDigit <;> cases c == '_' <;> simp
  · rw [isNameChar, isNameStart, decide_eq_true (Nat.le_of_not_lt hc), Bool.or_true, Bool.true_or]

/-- No character of a name is a blank. -/
theorem ne_blank_of_isNameChar {c : Char} (h : isNameChar c = true) : c ≠ ' ' := by
  rintro rfl
  exact absurd h (by decide)

/-- The characters of a name. -/
theorem isNameChar_of_isName {id : String} (hid : IsName id) :
    ∀ c ∈ id.toList, isNameChar c = true := by
  obtain ⟨⟨c, cs, hcs, hc, hall⟩, -⟩ := hid
  rw [hcs]
  intro d hd
  rcases List.mem_cons.mp hd with rfl | hd
  · rw [isNameChar, hc, Bool.true_or]
  · exact hall d hd

/-- A word in a name does not go on behind the name. -/
theorem takeWhile_append_of_stop {p : Char → Bool} {rest : List Char}
    (hrest : ∀ c ∈ rest.head?, p c = false) (cs : List Char) :
    (cs ++ rest).takeWhile p = cs.takeWhile p ∧
      (cs ++ rest).dropWhile p = cs.dropWhile p ++ rest := by
  induction cs with
  | nil =>
    cases rest with
    | nil => exact ⟨rfl, rfl⟩
    | cons c rest => simp [hrest c (by simp)]
  | cons c cs ih =>
    by_cases hc : p c = true
    · simp [hc, ih]
    · simp [hc]

/-- Where a name stops, a word does. -/
theorem not_isWordChar_of_stops {rest : List Char} (h : Stops rest) :
    ∀ c ∈ rest.head?, Text.isWordChar c = false := by
  intro c hc
  rw [← Bool.not_eq_true]
  intro hword
  have := isNameChar_of_isWordChar hword
  rw [h c hc] at this
  cases this

/-- The word that a name starts with. -/
theorem word?_name {id : String} {rest : List Char} (hid : IsName id)
    (hrest : ∀ c ∈ rest.head?, Text.isWordChar c = false) :
    word? (id.toList ++ rest) =
      if startsPlain id then some (id.toList.takeWhile Text.isWordChar,
        id.toList.dropWhile Text.isWordChar ++ rest)
      else none := by
  obtain ⟨⟨c, cs, hcs, -⟩, -⟩ := hid
  obtain ⟨htake, hdrop⟩ := takeWhile_append_of_stop hrest cs
  rw [startsPlain, hcs, List.cons_append, word?, htake, hdrop, List.head?_cons, Option.any_some]
  by_cases hc : isWordStart c = true
  · have hword := (of_isWordStart hc).1
    rw [if_pos hc, if_pos hc, List.takeWhile_cons_of_pos hword, List.dropWhile_cons_of_pos hword]
  · rw [if_neg hc, if_neg hc]

/-! ## No later touches -/

/-- The character behind the first blank. -/
def afterBlank? : List Char → Option Char
  | [] => none
  | c :: cs => if c = ' ' then cs.head? else afterBlank? cs

/-- No word starts behind the first blank, so nothing is touched at the start. -/
def Calm (cs : List Char) : Prop :=
  ∀ c ∈ afterBlank? cs, isWordStart c = false

/-- What stands behind characters that a text starts with. -/
theorem eq_append_of_after? : ∀ {ds cs rest : List Char}, after? ds cs = some rest → cs = ds ++ rest
  | [], _, _, h => by cases h; rfl
  | _ :: _, [], _, h => by simp [after?] at h
  | d :: ds, c :: cs, rest, h => by
    rw [after?] at h
    split at h
    · next hc => rw [hc, List.cons_append, eq_append_of_after? h]
    · cases h

theorem operation?_of_calm {cs : List Char} (h : Calm cs) : operation? cs = none := by
  cases hafter : after? "return ".toList cs with
  | none => rw [operation?, hafter]; rfl
  | some rest =>
    have hcs := eq_append_of_after? hafter
    -- The first blank of the text is the one behind the word.
    have hrest : ∀ c ∈ rest.head?, isWordStart c = false := by
      intro c hc
      refine h c ?_
      rw [hcs]
      exact hc
    have hword : word? rest = none := by
      cases rest with
      | nil => rfl
      | cons c rest => rw [word?, if_neg (by rw [hrest c rfl]; decide)]
    rw [operation?, hafter, Option.bind_eq_bind, Option.bind_some, hword]
    rfl

/-- Skipping characters is dropping them. -/
theorem parenthesized_eq_drop : ∀ (n : Nat) (cs : List Char),
    parenthesized n cs = parenthesized 0 (cs.drop n)
  | 0, cs => by rw [List.drop_zero]
  | n + 1, [] => by rw [List.drop_nil, parenthesized, parenthesized]
  | n + 1, c :: cs => by rw [parenthesized, List.drop_succ_cons, parenthesized_eq_drop n cs]

/-- A character where nothing is found stays. -/
theorem parenthesized_of_none {c : Char} {cs : List Char} (h : operation? (c :: cs) = none) :
    parenthesized 0 (c :: cs) = c :: parenthesized 0 cs := by
  rw [parenthesized, h]

/-- What is found is put between parentheses and skipped. -/
theorem parenthesized_of_some {c : Char} {cs found : List Char}
    (h : operation? (c :: cs) = some found) : parenthesized 0 (c :: cs) =
      "return (".toList ++ (found ++ ')' :: parenthesized 0 (cs.drop (6 + found.length))) := by
  rw [parenthesized, h, ← parenthesized_eq_drop]
  simp

/-- Characters that are never touched, whatever calm text stands behind them. -/
def Untouched (cs : List Char) : Prop :=
  ∀ rest : List Char, Calm rest →
    Calm (cs ++ rest) ∧ parenthesized 0 (cs ++ rest) = cs ++ parenthesized 0 rest

theorem untouched_nil : Untouched [] :=
  fun _ h => ⟨h, rfl⟩

theorem Untouched.append {cs ds : List Char} (hcs : Untouched cs) (hds : Untouched ds) :
    Untouched (cs ++ ds) := by
  intro rest hrest
  obtain ⟨hcalm, hkeep⟩ := hds rest hrest
  obtain ⟨hcalm', hkeep'⟩ := hcs _ hcalm
  rw [List.append_assoc, List.append_assoc, hkeep', hkeep]
  exact ⟨hcalm', rfl⟩

theorem Untouched.parenthesized_eq {cs : List Char} (h : Untouched cs) :
    parenthesized 0 cs = cs := by
  have := (h [] (by simp [Calm, afterBlank?])).2
  simpa [parenthesized] using this

/-- What has no blank is not touched. -/
theorem untouched_of_no_blank {cs : List Char} (h : ∀ c ∈ cs, c ≠ ' ') : Untouched cs := by
  induction cs with
  | nil => exact untouched_nil
  | cons c cs ih =>
    intro rest hrest
    obtain ⟨hcalm, hkeep⟩ := ih (fun d hd => h d (List.mem_cons_of_mem c hd)) rest hrest
    have hcalm' : Calm (c :: (cs ++ rest)) := by
      intro d hd
      rw [afterBlank?, if_neg (h c List.mem_cons_self)] at hd
      exact hcalm d hd
    refine ⟨hcalm', ?_⟩
    rw [List.cons_append, parenthesized_of_none (operation?_of_calm hcalm'), hkeep]
    rfl

/-- A sign between blanks is not touched. -/
theorem untouched_sign (s : BinarySign) : Untouched (' ' :: (s.text.toList ++ [' '])) := by
  intro rest _
  constructor
  · intro c hc
    cases s <;> (cases hc; decide)
  · cases s <;> rfl

/-- The characters of a number. -/
theorem isDigit_of_mem_toString {n : Nat} {c : Char} (h : c ∈ (toString n).toList) :
    c.isDigit = true := by
  rw [Nat.toString_eq_ofList_toDigits, String.toList_ofList] at h
  exact Nat.isDigit_of_mem_toDigits (by decide) (by decide) h

/-- The text of an operation is not touched. -/
theorem untouched_text (e : Operation) (hnamed : e.Named) : ∀ level, Untouched (e.text level) := by
  induction e with
  | use id =>
    exact fun _ => untouched_of_no_blank fun c hc =>
      ne_blank_of_isNameChar (isNameChar_of_isName hnamed c hc)
  | number n =>
    refine fun _ => untouched_of_no_blank fun c hc => ?_
    rintro rfl
    exact absurd (isDigit_of_mem_toString hc) (by decide)
  | op sign left right ihl ihr =>
    intro level
    have hbody : Untouched (left.text sign.leftLevel ++
        ' ' :: (sign.text.toList ++ ' ' :: right.text sign.rightLevel)) := by
      have := (ihl hnamed.1 sign.leftLevel).append
        ((untouched_sign sign).append (ihr hnamed.2 sign.rightLevel))
      simpa using this
    have hround : ∀ c, c ≠ ' ' → Untouched [c] := fun c hc =>
      untouched_of_no_blank fun d hd => List.mem_singleton.mp hd ▸ hc
    rw [text]
    split
    · exact (hround '(' (by decide)).append (hbody.append (hround ')' (by decide)))
    · exact hbody

/-! ## The rest of a text -/

/-- What stands behind an operand: it ends a word, is not touched, and goes on with
tokens that put the operand into a larger operation. -/
structure Continues (inner outer : Level) (fill : Operation → Operation) (cs : List Char)
    (ts : List Token) : Prop where
  stops : ∀ {rest : List Char}, Stops rest → Stops (cs ++ rest)
  untouched : Untouched cs
  scans : ∀ {rest : List Char}, Stops rest → Scans (cs ++ rest) ts rest
  derives : ∀ {us : List Token} {z : Operation}, Derives inner us z.term →
    Derives outer (us ++ ts) (fill z).term
  injective : ∀ {z z' : Operation}, fill z = fill z' → z = z'

/-- Nothing behind an operand. -/
theorem Continues.refl {inner outer : Level} (h : outer ≤ inner) :
    Continues inner outer (fun z => z) [] [] where
  stops hrest := hrest
  untouched := untouched_nil
  scans _ := .refl _
  derives hz := by
    rw [List.append_nil]
    exact hz.weaken h
  injective hz := hz

/-- The operand becomes the left one of a sign. -/
theorem Continues.operand {inner level : Level} {fill : Operation → Operation} {cs : List Char}
    {ts : List Token} {sign : BinarySign} {right : Operation}
    (h : Continues inner sign.leftLevel fill cs ts) (hright : right.Named)
    (hlevel : ¬ sign.level < level) :
    Continues inner level (fun z => .op sign (fill z) right)
      (cs ++ ' ' :: (sign.text.toList ++ ' ' :: right.text sign.rightLevel))
      (ts ++ .sign sign :: right.tokens sign.rightLevel) where
  stops _ := by
    rw [List.append_assoc]
    exact h.stops (stops_cons (by decide) _)
  untouched := by
    have := h.untouched.append ((untouched_sign sign).append (right.untouched_text hright sign.rightLevel))
    simpa using this
  scans hrest := by
    have := (h.scans (stops_cons (by decide) _)).trans
      ((scans_sign sign _).trans (right.scans_text hright sign.rightLevel hrest))
    simpa using this
  derives hz := by
    obtain ⟨hsame, hl, hr⟩ := production_le sign
    rw [← List.append_assoc]
    refine .operation ?_ ((h.derives hz).weaken hl) ((right.derives_tokens hright _).weaken hr)
    rw [hsame]
    exact Nat.le_of_not_lt hlevel
  injective hz := by
    rw [Operation.op.injEq] at hz
    exact h.injective hz.2.1

/-- What stands behind an operand of an operand. -/
theorem Continues.trans {inner low middle outer : Level} {fill fill' : Operation → Operation}
    {cs cs' : List Char} {ts ts' : List Token} (h : Continues inner middle fill cs ts)
    (h' : Continues low outer fill' cs' ts') (hle : low ≤ middle) :
    Continues inner outer (fun z => fill' (fill z)) (cs ++ cs') (ts ++ ts') where
  stops hrest := by
    rw [List.append_assoc]
    exact h.stops (h'.stops hrest)
  untouched := h.untouched.append h'.untouched
  scans hrest := by
    rw [List.append_assoc]
    exact (h.scans (h'.stops hrest)).trans (h'.scans hrest)
  derives hz := by
    rw [← List.append_assoc]
    exact h'.derives ((h.derives hz).weaken hle)
  injective hz := h.injective (h'.injective hz)

/-- An operand whose text starts with a name. -/
theorem split_start (e : Operation) (hnamed : e.Named) : ∀ {level : Level} {y : String},
    e.start? level = some y → IsName y ∧ e.leftmost = .use y ∧ ∃ inner cs ts,
      Continues inner level (fun z => plug z e) cs ts ∧ e.text level = y.toList ++ cs ∧
        e.tokens level = .word y.toList :: ts := by
  induction e with
  | use id =>
    intro level y h
    rw [start?, Option.some.injEq] at h
    subst h
    exact ⟨hnamed, rfl, level, [], [], .refl (Nat.le_refl _), by simp [text], rfl⟩
  | number n =>
    intro level y h
    cases h
  | op sign left right ihl _ =>
    intro level y h
    rw [start?] at h
    split at h
    · cases h
    · next hlevel =>
      obtain ⟨hy, hleft, inner, cs, ts, hcont, htext, htokens⟩ := ihl hnamed.1 h
      refine ⟨hy, hleft, inner, _, _, hcont.operand hnamed.2 hlevel, ?_, ?_⟩
      · rw [text, if_neg hlevel, htext, List.append_assoc]
      · rw [tokens, if_neg hlevel, htokens, List.cons_append]

/-- An operand whose text starts with something else than a name has no word there. -/
theorem word?_of_start?_none (e : Operation) : ∀ {level : Level} {rest : List Char},
    e.start? level = none → word? (e.text level ++ rest) = none := by
  induction e with
  | use id =>
    intro level rest h
    cases h
  | number n =>
    intro level rest _
    rw [text]
    cases hds : (toString n).toList with
    | nil =>
      rw [Nat.toString_eq_ofList_toDigits, String.toList_ofList] at hds
      exact absurd hds Nat.toDigits_ne_nil
    | cons c cs =>
      have hc : c.isDigit = true := isDigit_of_mem_toString (hds ▸ List.mem_cons_self)
      have hstart : ¬ isWordStart c = true := by
        intro hstart
        have := (of_isWordStart hstart).2
        rw [(ne_of_isDigit hc).2.2] at this
        exact absurd this (by decide)
      rw [List.cons_append, word?, if_neg hstart]
  | op sign left right ihl _ =>
    intro level rest h
    rw [start?] at h
    rw [text]
    split at h
    · next hlevel => rw [if_pos hlevel]; rfl
    · next hlevel =>
      rw [if_neg hlevel, List.append_assoc]
      exact ihl h

/-- An operation whose text starts with an operation on a name. -/
theorem split_front (e : Operation) (hnamed : e.Named) : ∀ {level : Level} {x : String}
    {sign : BinarySign} {right : Operation}, e.front? level = some (x, sign, right) →
    IsName x ∧ right.Named ∧ ∃ fill cs ts, Continues sign.level level fill cs ts ∧
      e.text level = x.toList ++ ' ' :: (sign.text.toList ++ ' ' :: (right.text sign.rightLevel ++ cs)) ∧
      e.tokens level = .word x.toList :: .sign sign :: (right.tokens sign.rightLevel ++ ts) ∧
      e = fill (.op sign (.use x) right) ∧
      e.regroup = fill (plug (.op sign (.use x) right.leftmost) right) := by
  induction e with
  | use id | number n =>
    intro level x sign right h
    cases h
  | op s left r ihl _ =>
    intro level x sign right h
    by_cases hlevel : s.level < level
    · rw [front?, if_pos hlevel] at h
      cases h
    · cases left with
      | use id =>
        rw [front?, if_neg hlevel] at h
        cases h
        refine ⟨hnamed.1, hnamed.2, fun z => z, [], [], .refl (Nat.le_of_not_lt hlevel), ?_, ?_,
          rfl, rfl⟩
        · rw [text, if_neg hlevel, List.append_nil]
          rfl
        · rw [tokens, if_neg hlevel, List.append_nil]
          rfl
      | number n =>
        rw [front?, if_neg hlevel] at h
        cases h
      | op s' left' right' =>
        rw [front?, if_neg hlevel] at h
        obtain ⟨hx, hright, fill, cs, ts, hcont, htext, htokens, he, hregroup⟩ := ihl hnamed.1 h
        refine ⟨hx, hright, _, _, _, hcont.operand hnamed.2 hlevel, ?_, ?_, ?_, ?_⟩
        · rw [text, if_neg hlevel, htext]
          simp
        · rw [tokens, if_neg hlevel, htokens]
          simp
        · rw [← he]
        · rw [← hregroup]
          rfl

/-! ## The touch-up -/

/-- An operation that starts with a name and not with an operation is that name. -/
theorem eq_use_of_front?_none (e : Operation) : ∀ {level : Level} {x : String},
    e.front? level = none → e.start? level = some x → e = .use x := by
  induction e with
  | use id =>
    intro level x _ hstart
    rw [start?, Option.some.injEq] at hstart
    rw [hstart]
  | number n =>
    intro level x _ hstart
    cases hstart
  | op sign left right ihl _ =>
    intro level x hfront hstart
    rw [start?] at hstart
    rw [front?] at hfront
    split at hstart
    · cases hstart
    · next hlevel =>
      rw [if_neg hlevel] at hfront
      split at hfront
      · cases hfront
      · next hname =>
        rw [ihl hfront hstart] at hname
        cases hname

/-- The sign and the second word of a returned operation, behind its first word. -/
def signed? (left : List Char) : List Char → Option (List Char)
  | ' ' :: sign :: ' ' :: cs =>
    if isSign sign then do
      let (right, _) ← word? cs
      return left ++ [' ', sign, ' '] ++ right
    else none
  | _ => none

theorem operation?_return (cs : List Char) : operation? ("return ".toList ++ cs) =
    (word? cs).bind fun found => signed? found.1 found.2 :=
  rfl

theorem signed?_of_head {left cs : List Char} (h : ∀ c ∈ cs.head?, c ≠ ' ') :
    signed? left cs = none := by
  unfold signed?
  split
  · exact absurd rfl (h ' ' rfl)
  · rfl

/-- Of the signs with blanks around them, four are looked for. -/
theorem signed?_sign (left : List Char) (sign : BinarySign) (rest : List Char) :
    signed? left (' ' :: (sign.text.toList ++ ' ' :: rest)) =
      if isTouched sign then (word? rest).map fun found =>
        left ++ ' ' :: (sign.text.toList ++ ' ' :: found.1)
      else none := by
  have hword : ∀ c, isSign c = true → signed? left (' ' :: c :: ' ' :: rest) =
      (word? rest).map fun found => left ++ ' ' :: c :: ' ' :: found.1 := by
    intro c hc
    rw [signed?, if_pos hc]
    cases word? rest with
    | none => rfl
    | some found => simp
  cases sign with
  | add => exact hword '+' (by decide)
  | sub => exact hword '-' (by decide)
  | mult => exact hword '*' (by decide)
  | div => exact hword '/' (by decide)
  | _ => rfl

/-- A name that is not one word goes on with a character of no word, and with no
blank. -/
theorem dropWhile_of_isName {id : String} (hid : IsName id) :
    (isWhole id = true → id.toList.takeWhile Text.isWordChar = id.toList ∧
      id.toList.dropWhile Text.isWordChar = []) ∧
    (isWhole id = false → ∃ c cs, id.toList.dropWhile Text.isWordChar = c :: cs ∧
      isNameStart c = true ∧ ∀ d ∈ c :: cs, isNameChar d = true) := by
  constructor
  · intro h
    have hall : ∀ c ∈ id.toList, Text.isWordChar c = true := by
      simpa [isWhole] using h
    have hend : ∀ c ∈ ([] : List Char).head?, Text.isWordChar c = false := by simp
    simpa using takeWhile_dropWhile_of_stops hall hend
  · intro h
    cases hdrop : id.toList.dropWhile Text.isWordChar with
    | nil =>
      have hsame := List.takeWhile_append_dropWhile (p := Text.isWordChar) (l := id.toList)
      rw [hdrop, List.append_nil] at hsame
      rw [isWhole, ← hsame, List.all_takeWhile] at h
      cases h
    | cons c cs =>
      have hall : ∀ d ∈ c :: cs, isNameChar d = true := fun d hd =>
        isNameChar_of_isName hid d ((List.dropWhile_suffix _).subset (hdrop ▸ hd))
      have hword : Text.isWordChar c = false := by
        have := List.head_dropWhile_not Text.isWordChar (l := id.toList) (by rw [hdrop]; simp)
        simpa [hdrop] using this
      exact ⟨c, cs, rfl, isNameStart_of_not_isWordChar (hall c List.mem_cons_self) hword, hall⟩

/-- What the touch-up finds behind the word `return`, in terms of the operation. -/
theorem operation?_text (e : Operation) (hnamed : e.Named) :
    operation? ("return ".toList ++ e.text Level.test) = e.taken?.map fun found =>
      found.1.toList ++ ' ' :: (found.2.1.text.toList ++
        ' ' :: found.2.2.2.toList.takeWhile Text.isWordChar) := by
  have hend : ∀ c ∈ ([] : List Char).head?, Text.isWordChar c = false := by simp
  -- Behind a name that is not one word there is no blank.
  have hpart : ∀ {id : String} {left rest : List Char}, IsName id → isWhole id = false →
      signed? left (id.toList.dropWhile Text.isWordChar ++ rest) = none := by
    intro id left rest hid hwhole
    obtain ⟨c, cs, hdrop, -, hall⟩ := (dropWhile_of_isName hid).2 hwhole
    rw [hdrop]
    refine signed?_of_head fun d hd => ?_
    cases hd
    exact ne_blank_of_isNameChar (hall _ List.mem_cons_self)
  rw [operation?_return, taken?]
  cases hfront : e.front? Level.test with
  | none =>
    rw [Option.map_none, ← List.append_nil (e.text Level.test)]
    cases hstart : e.start? Level.test with
    | none => rw [e.word?_of_start?_none hstart, Option.bind_none]
    | some x =>
      have he := e.eq_use_of_front?_none hfront hstart
      subst he
      rw [text, word?_name hnamed hend]
      split
      · cases hwhole : isWhole x with
        | true => rw [Option.bind_some, ((dropWhile_of_isName hnamed).1 hwhole).2]; rfl
        | false => rw [Option.bind_some, hpart hnamed hwhole]
      · rfl
  | some found =>
    obtain ⟨x, sign, right⟩ := found
    obtain ⟨hx, hright, fill, cs, ts, hcont, htext, -⟩ := e.split_front hnamed hfront
    rw [htext, word?_name hx (not_isWordChar_of_stops (stops_cons (by decide) _))]
    -- The first name has to be one word for a sign to be seen.
    cases hplain : startsPlain x with
    | false =>
      simp only [hplain, Bool.false_and, Bool.false_eq_true, if_false]
      cases right.start? sign.rightLevel <;> rfl
    | true =>
      cases hwhole : isWhole x with
      | false =>
        simp only [hwhole, Bool.and_false, Bool.false_and, Bool.false_eq_true, if_false, if_true,
          Option.bind_some, hpart hx hwhole]
        cases right.start? sign.rightLevel <;> rfl
      | true =>
        obtain ⟨htake, hdrop⟩ := (dropWhile_of_isName hx).1 hwhole
        simp only [hplain, hwhole, if_true, Option.bind_some, htake, hdrop, List.nil_append,
          signed?_sign]
        -- The second one only has to start like one.
        cases hsecond : right.start? sign.rightLevel with
        | none => rw [right.word?_of_start?_none hsecond]; split <;> rfl
        | some y =>
          obtain ⟨hy, -, inner, cs', ts', hcont', htext', -⟩ := right.split_start hright hsecond
          rw [htext', List.append_assoc, word?_name hy (not_isWordChar_of_stops
            (hcont'.stops (by simpa using hcont.stops stops_nil)))]
          cases isTouched sign <;> cases hstart : startsPlain y <;> simp [hstart]

/-- The text of a statement that gives back an operation, after the touch-up. -/
def touched (e : Operation) : List Char :=
  parenthesized 0 ("return ".toList ++ e.text Level.test)

/-- Nothing is touched if nothing is found right behind the word. -/
theorem touched_of_taken?_none (e : Operation) (hnamed : e.Named) (h : e.taken? = none) :
    e.touched = "return ".toList ++ e.text Level.test := by
  have hnone : operation? ("return ".toList ++ e.text Level.test) = none := by
    rw [e.operation?_text hnamed, h, Option.map_none]
  have hhead : parenthesized 0 ("return ".toList ++ e.text Level.test) =
      'r' :: parenthesized 0 ("eturn ".toList ++ e.text Level.test) := parenthesized_of_none hnone
  have hrest : parenthesized 0 ("eturn ".toList ++ e.text Level.test) =
      "eturn ".toList ++ parenthesized 0 (e.text Level.test) := rfl
  rw [touched, hhead, hrest, (e.untouched_text hnamed Level.test).parenthesized_eq]
  rfl

/-- What is found gets parentheses, and the rest stays. -/
theorem touched_of_operation? {found rest : List Char} {e : Operation}
    (htext : e.text Level.test = found ++ rest)
    (hfound : operation? ("return ".toList ++ e.text Level.test) = some found)
    (hrest : Untouched rest) :
    e.touched = "return (".toList ++ (found ++ ')' :: rest) := by
  have hhead : e.touched = "return (".toList ++ (found ++ ')' ::
      parenthesized 0 (("eturn ".toList ++ e.text Level.test).drop (6 + found.length))) :=
    parenthesized_of_some hfound
  have hdrop : ("eturn ".toList ++ e.text Level.test).drop (6 + found.length) = rest := by
    rw [htext, ← List.append_assoc]
    refine List.drop_left' ?_
    rw [List.length_append]
    rfl
  rw [hhead, hdrop, hrest.parenthesized_eq]

/-! ## What the touched text says -/

/-- Regrouping changes an operation, unless the first sign has a name on its right. -/
theorem plug_eq_iff {sign : BinarySign} {x y : String} {right : Operation}
    (h : right.leftmost = .use y) :
    plug (.op sign (.use x) (.use y)) right = .op sign (.use x) right ↔ right = .use y := by
  constructor
  · intro heq
    cases right with
    | use id => exact h
    | number n => cases h
    | op s left r =>
      rw [plug, Operation.op.injEq] at heq
      cases left <;> cases heq.2.1
  · rintro rfl
    rfl

/-- What the touch-up finds, what it makes of the text, and the rest of the text behind
the second name. -/
theorem split_taken (e : Operation) (hnamed : e.Named) {x y : String} {sign : BinarySign}
    {right : Operation} (h : e.taken? = some (x, sign, right, y)) :
    IsName x ∧ IsName y ∧ startsPlain y = true ∧ (e.regroup = e ↔ right = .use y) ∧
      ∃ inner fill cs ts, Continues inner Level.test fill cs ts ∧
        e.touched = "return (".toList ++
          ((x.toList ++ ' ' :: (sign.text.toList ++ ' ' :: y.toList.takeWhile Text.isWordChar)) ++
            ')' :: (y.toList.dropWhile Text.isWordChar ++ cs)) ∧
        e.tokens Level.test = .word x.toList :: .sign sign :: .word y.toList :: ts ∧
        e.regroup = fill (.op sign (.use x) (.use y)) := by
  have hfound := e.operation?_text hnamed
  rw [h, Option.map_some] at hfound
  unfold taken? at h
  split at h
  · cases h
  next x' sign' right' hfront =>
  split at h
  · cases h
  next y' hstart =>
  split at h
  · next hcond =>
    cases h
    simp only [Bool.and_eq_true] at hcond
    obtain ⟨hx, hright, fill, cs, ts, hcont, htext, htokens, he, hregroup⟩ :=
      e.split_front hnamed hfront
    obtain ⟨hy, hleft, inner, cs', ts', hcont', htext', htokens'⟩ := right.split_start hright hstart
    have hlevel : sign.level ≤ sign.rightLevel := by
      cases sign <;> decide
    rw [hleft] at hregroup
    have hall := hcont'.trans hcont hlevel
    refine ⟨hx, hy, hcond.2, ?_, inner, _, _, _, hall, ?_, ?_, hregroup⟩
    · rw [← plug_eq_iff hleft, hregroup]
      constructor
      · intro hsame
        exact hcont.injective (hsame.trans he)
      · intro hsame
        rw [hsame, ← he]
    · -- The second name is cut behind its first word.
      have hcut := List.takeWhile_append_dropWhile (p := Text.isWordChar) (l := y.toList)
      have hrest : Untouched (y.toList.dropWhile Text.isWordChar) :=
        untouched_of_no_blank fun c hc => ne_blank_of_isNameChar
          (isNameChar_of_isName hy c ((List.dropWhile_suffix _).subset hc))
      refine touched_of_operation? ?_ hfound (hrest.append hall.untouched)
      have hsplit : y.toList ++ (cs' ++ cs) = y.toList.takeWhile Text.isWordChar ++
          (y.toList.dropWhile Text.isWordChar ++ (cs' ++ cs)) := by
        rw [← List.append_assoc (y.toList.takeWhile _), hcut]
      rw [htext, htext', List.append_assoc, hsplit]
      simp only [List.append_assoc, List.cons_append]
    · rw [htokens, htokens', List.cons_append]
  · cases h

/-- The word before the operation is one token. -/
theorem scans_return (rest : List Char) :
    Scans ("return ".toList ++ rest) [.word "return".toList] rest := by
  have hletters : "eturn".toList.all isNameChar = true := by decide
  have hword : token? ('r' :: ("eturn".toList ++ ' ' :: rest)) =
      some (.word ('r' :: "eturn".toList), ' ' :: rest) :=
    token?_word (by decide) (List.all_eq_true.mp hletters) (stops_cons (by decide) rest)
  exact .token hword (.blank (.refl rest))

/-- The tokens of the touched text up to the closing parenthesis. -/
theorem scans_found {x : String} (sign : BinarySign) {c : Char} {cs rest : List Char}
    (hx : IsName x) (hc : isNameStart c = true) (hcs : ∀ d ∈ cs, isNameChar d = true) :
    Scans ("return (".toList ++
        ((x.toList ++ ' ' :: (sign.text.toList ++ ' ' :: c :: cs)) ++ ')' :: rest))
      [.word "return".toList, .opening, .word x.toList, .sign sign, .word (c :: cs), .closing]
      rest := by
  have hlast : Scans (c :: (cs ++ ')' :: rest)) [.word (c :: cs), .closing] rest :=
    .token (token?_word hc hcs (stops_cons (by decide) rest)) (.token rfl (.refl rest))
  have hsign := (scans_sign sign (c :: (cs ++ ')' :: rest))).trans hlast
  have hfirst : Scans (x.toList ++ ' ' :: (sign.text.toList ++ ' ' :: c :: (cs ++ ')' :: rest)))
      (.word x.toList :: ([.sign sign] ++ [.word (c :: cs), .closing])) rest :=
    .token (token?_name hx (stops_cons (by decide) _)) hsign
  have hopen := (scans_return _).trans (.token (show token? ('(' :: _) = some (.opening, _) from rfl)
    hfirst)
  simpa using hopen

/-- **Without a touch** the text says what was meant. -/
theorem reads_text (e : Operation) (hnamed : e.Named) :
    Reads (String.ofList ("return ".toList ++ e.text Level.test)) (.giveBack e.term) := by
  refine ⟨e.tokens Level.test, e.term, ?_, e.derives_tokens hnamed Level.test, rfl⟩
  have htext := e.scans_text hnamed Level.test stops_nil
  rw [List.append_nil] at htext
  rw [String.toList_ofList]
  exact ((scans_return _).trans htext).tokens?_eq

/-- **A touch that ends with a name** makes the text say the regrouped operation. -/
theorem reads_regroup (e : Operation) (hnamed : e.Named) {x y : String} {sign : BinarySign}
    {right : Operation} (h : e.taken? = some (x, sign, right, y)) (hwhole : isWhole y = true) :
    Reads (String.ofList e.touched) (.giveBack e.regroup.term) := by
  obtain ⟨hx, hy, -, -, inner, fill, cs, ts, hcont, htouched, -, hregroup⟩ :=
    e.split_taken hnamed h
  obtain ⟨htake, hdrop⟩ := (dropWhile_of_isName hy).1 hwhole
  rw [htake, hdrop, List.nil_append] at htouched
  obtain ⟨c, cs', hcs', hc, hall⟩ := hy.1
  have hgroup : Derives inner
      (.opening :: ([.word x.toList, .sign sign, .word y.toList] ++ [.closing]))
      (Operation.op sign (.use x) (.use y)).term := by
    have hpair : (Operation.op sign (.use x) (.use y)).Named := ⟨hx, hy⟩
    have htest : ¬ sign.level < Level.test := by
      cases sign <;> decide
    have hinside := derives_tokens _ hpair Level.test
    rw [tokens, if_neg htest] at hinside
    exact .group hinside
  refine ⟨_, _, ?_, hcont.derives hgroup, by rw [hregroup]⟩
  have hrest := hcont.scans stops_nil
  rw [List.append_nil] at hrest
  rw [String.toList_ofList, htouched, hcs']
  exact ((scans_found sign hx hc hall).trans hrest).tokens?_eq

/-- **A touch that ends inside a name** makes the text say nothing: one operand too
many. -/
theorem not_reads_of_part (e : Operation) (hnamed : e.Named) {x y : String} {sign : BinarySign}
    {right : Operation} (h : e.taken? = some (x, sign, right, y)) (hwhole : isWhole y = false)
    (t : Term) : ¬ Reads (String.ofList e.touched) t := by
  obtain ⟨hx, hy, hplain, -, inner, fill, cs, ts, hcont, htouched, htokens, -⟩ :=
    e.split_taken hnamed h
  obtain ⟨d, ds, hdrop, hd, hds⟩ := (dropWhile_of_isName hy).2 hwhole
  obtain ⟨⟨c, cs', hcs', -, hall⟩, -⟩ := hy
  rw [startsPlain, hcs', List.head?_cons, Option.any_some] at hplain
  rw [hdrop, hcs', List.takeWhile_cons_of_pos (of_isWordStart hplain).1] at htouched
  have hfirst : ∀ b ∈ cs'.takeWhile Text.isWordChar, isNameChar b = true := fun b hb =>
    hall b ((List.takeWhile_prefix _).subset hb)
  have hrest : Scans (d :: ds ++ cs) (.word (d :: ds) :: ts) [] := by
    have hcs := hcont.scans stops_nil
    have hstop := hcont.stops stops_nil
    rw [List.append_nil] at hcs hstop
    exact .token (token?_word hd (fun b hb => hds b (List.mem_cons_of_mem d hb)) hstop) hcs
  have hall := ((scans_found sign hx (of_isWordStart hplain).2 hfirst).trans hrest).tokens?_eq
  rintro ⟨us, u, hus, hu, -⟩
  rw [String.toList_ofList, htouched, hall, Option.some.injEq] at hus
  have hsaid : us = .opening :: .word x.toList :: .sign sign ::
      .word (c :: cs'.takeWhile Text.isWordChar) :: .closing :: .word (d :: ds) :: ts :=
    (List.cons.inj hus).2.symm
  -- The operation itself has one operand more than signs, so the rest has as many as signs.
  have hmeant := (e.derives_tokens hnamed Level.test).total_surplus
  have htoo := hu.total_surplus
  rw [htokens] at hmeant
  rw [hsaid] at htoo
  simp only [total, Token.surplus] at hmeant htoo
  omega

/-- **The touch-up.** The touched text says what was meant exactly if the parentheses
do not end inside the right operand of the first sign. -/
theorem reads_touched_iff (e : Operation) (hnamed : e.Named) :
    Reads (String.ofList e.touched) (.giveBack e.term) ↔ e.straddles = false := by
  rw [straddles]
  cases htaken : e.taken? with
  | none =>
    rw [e.touched_of_taken?_none hnamed htaken]
    exact ⟨fun _ => rfl, fun _ => e.reads_text hnamed⟩
  | some found =>
    obtain ⟨x, sign, right, y⟩ := found
    cases hwhole : isWhole y with
    | false =>
      have := e.not_reads_of_part hnamed htaken hwhole (.giveBack e.term)
      simp [this, hwhole]
    | true =>
      have hregroup := e.reads_regroup hnamed htaken hwhole
      have hself := (e.split_taken hnamed htaken).2.2.2.1
      have hiff : Reads (String.ofList e.touched) (.giveBack e.term) ↔ e.regroup = e := by
        constructor
        · intro hreads
          have := hregroup.unique hreads
          rw [Term.giveBack.injEq] at this
          exact term_injective this
        · intro hsame
          rw [hsame] at hregroup
          exact hregroup
      rw [hiff, hself]
      simp [hwhole]

/-- Whatever else the touched text says is the regrouped operation. -/
theorem eq_regroup_of_straddles (e : Operation) (hnamed : e.Named) (h : e.straddles = true)
    {t : Term} (ht : Reads (String.ofList e.touched) t) :
    t = .giveBack e.regroup.term ∧ e.regroup ≠ e := by
  rw [straddles] at h
  cases htaken : e.taken? with
  | none => rw [htaken] at h; cases h
  | some found =>
    obtain ⟨x, sign, right, y⟩ := found
    rw [htaken] at h
    cases hwhole : isWhole y with
    | false => exact absurd ht (e.not_reads_of_part hnamed htaken hwhole t)
    | true =>
      refine ⟨ht.unique (e.reads_regroup hnamed htaken hwhole), ?_⟩
      rw [Ne, (e.split_taken hnamed htaken).2.2.2.1]
      simpa [hwhole] using h

end ProgramTree.Target.Operation
