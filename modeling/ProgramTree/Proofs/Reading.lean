/-
What the text of an operation says to a reader of the target language.

The reader knows nothing of the way a text was written. It cuts the text into tokens,
each as long as it can be, and groups the tokens by the productions of the grammar:
how tightly a sign binds and on which side it may be repeated. The grammar is stated
as a relation, because that is how a language definition states it; that it allows
one reading only is a theorem here, not a property of some parser.

The theorem rests on counting parentheses. Whatever is derived is balanced, so a
sign outside all parentheses separates two balanced parts, and two such signs in one
text would each have to bind more tightly than the other.
-/
import ProgramTree.Target.Term

namespace ProgramTree.Target.Reading

/-! ## Characters and words -/

/-- Letters by their codes. -/
theorem isAlpha_iff {c : Char} : c.isAlpha = true ↔
    (65 ≤ c.toNat ∧ c.toNat ≤ 90) ∨ (97 ≤ c.toNat ∧ c.toNat ≤ 122) := by
  have hle : ∀ a b : Char, a.val ≤ b.val ↔ a.toNat ≤ b.toNat := fun _ _ => UInt32.le_iff_toNat_le
  have hupper : c.isUpper = true ↔ 65 ≤ c.toNat ∧ c.toNat ≤ 90 := by
    show decide ('A'.val ≤ c.val ∧ c.val ≤ 'Z'.val) = true ↔ _
    rw [decide_eq_true_eq, hle, hle]
    rfl
  have hlower : c.isLower = true ↔ 97 ≤ c.toNat ∧ c.toNat ≤ 122 := by
    show (decide ('a'.val ≤ c.val) && decide (c.val ≤ 'z'.val)) = true ↔ _
    rw [Bool.and_eq_true, decide_eq_true_eq, decide_eq_true_eq, hle, hle]
    rfl
  show (c.isUpper || c.isLower) = true ↔ _
  rw [Bool.or_eq_true, hupper, hlower]

/-- The characters that start a name. What is not in the narrow alphabet is taken as
part of a name here. -/
def isNameStart (c : Char) : Bool :=
  c.isAlpha || c == '_' || 128 ≤ c.toNat

theorem isNameStart_iff {c : Char} : isNameStart c = true ↔
    c.isAlpha = true ∨ c = '_' ∨ 128 ≤ c.toNat := by
  rw [isNameStart, Bool.or_eq_true, Bool.or_eq_true, beq_iff_eq, decide_eq_true_eq, or_assoc]

/-- The characters of a name. -/
def isNameChar (c : Char) : Bool :=
  isNameStart c || c.isDigit

/-- The words that are no names. -/
def keywords : List String :=
  ["False", "None", "True", "and", "as", "assert", "async", "await", "break", "class",
   "continue", "def", "del", "elif", "else", "except", "finally", "for", "from", "global", "if",
   "import", "in", "is", "lambda", "nonlocal", "not", "or", "pass", "raise", "return", "try",
   "while", "with", "yield"]

/-- A text that names a variable. -/
def IsName (id : String) : Prop :=
  (∃ c cs, id.toList = c :: cs ∧ isNameStart c = true ∧ ∀ d ∈ cs, isNameChar d = true) ∧
    id ∉ keywords

instance (id : String) : Decidable (IsName id) :=
  decidable_of_iff ((id.toList.head?.any isNameStart = true ∧ id.toList.tail.all isNameChar = true) ∧
    id ∉ keywords) <| by
    refine and_congr_left fun _ => ?_
    cases id.toList with
    | nil => simp
    | cons c cs =>
      constructor
      · exact fun ⟨hc, hcs⟩ => ⟨c, cs, rfl, hc, List.all_eq_true.mp hcs⟩
      · rintro ⟨_, _, ⟨⟩, hc, hcs⟩
        exact ⟨hc, List.all_eq_true.mpr hcs⟩

/-! ## Tokens -/

/-- The pieces that a text is cut into. -/
inductive Token
  | word (letters : List Char)
  | number (value : Nat)
  | sign (s : BinarySign)
  | opening
  | closing
deriving DecidableEq, Repr

variable {s : BinarySign} {cs rest : List Char} {ts : List Token} {t : Term} {level : Level}

/-- The longest sign at the start of a text, and the rest. -/
def sign? : List Char → Option (BinarySign × List Char)
  | '*' :: '*' :: cs => some (.pow, cs)
  | '/' :: '/' :: cs => some (.floorDiv, cs)
  | '<' :: '<' :: cs => some (.lShift, cs)
  | '>' :: '>' :: cs => some (.rShift, cs)
  | '+' :: cs => some (.add, cs)
  | '-' :: cs => some (.sub, cs)
  | '*' :: cs => some (.mult, cs)
  | '/' :: cs => some (.div, cs)
  | '%' :: cs => some (.mod, cs)
  | '|' :: cs => some (.bitOr, cs)
  | '&' :: cs => some (.bitAnd, cs)
  | '^' :: cs => some (.bitXor, cs)
  | _ => none

/-- The longest token at the start of a text, and the rest. Digits with letters right
behind them are no token. -/
def token? : List Char → Option (Token × List Char)
  | [] => none
  | c :: cs =>
    if c = '(' then some (.opening, cs)
    else if c = ')' then some (.closing, cs)
    else if isNameStart c then some (.word (c :: cs.takeWhile isNameChar), cs.dropWhile isNameChar)
    else if c.isDigit then
      if (cs.dropWhile Char.isDigit).head?.any isNameStart then none
      else some (.number (Nat.ofDigitChars 10 (c :: cs.takeWhile Char.isDigit) 0),
        cs.dropWhile Char.isDigit)
    else (sign? (c :: cs)).map fun found => (.sign found.1, found.2)

/-- A sign takes at least one character. -/
theorem length_of_sign? (h : sign? cs = some (s, rest)) : rest.length < cs.length := by
  unfold sign? at h
  split at h
  all_goals first
    | (cases h; simp only [List.length_cons]; omega)
    | exact absurd h (by simp)

/-- A token takes at least one character. -/
theorem length_of_token? {t : Token} (h : token? cs = some (t, rest)) :
    rest.length < cs.length := by
  cases cs with
  | nil => exact absurd h (by simp [token?])
  | cons c cs =>
    have hdrop : ∀ p : Char → Bool, (cs.dropWhile p).length < (c :: cs).length := fun p =>
      Nat.lt_succ_of_le (List.dropWhile_suffix p).length_le
    rw [token?] at h
    split at h
    · cases h; exact Nat.lt_succ_self _
    split at h
    · cases h; exact Nat.lt_succ_self _
    split at h
    · cases h; exact hdrop _
    split at h
    · split at h
      · exact absurd h (by simp)
      · cases h; exact hdrop _
    · rw [Option.map_eq_some_iff] at h
      obtain ⟨⟨s, rest'⟩, hs, he⟩ := h
      cases he
      exact length_of_sign? hs

/-- The tokens of a text, if it has only tokens and blanks. -/
def tokens? (cs : List Char) : Option (List Token) :=
  match cs with
  | [] => some []
  | c :: cs =>
    if c = ' ' then tokens? cs
    else
      match _h : token? (c :: cs) with
      | some (t, rest) => (tokens? rest).map (t :: ·)
      | none => none
termination_by cs.length
decreasing_by
  · exact Nat.lt_succ_self _
  · exact length_of_token? _h

theorem tokens?_nil : tokens? [] = some [] := by
  rw [tokens?]

/-- Blanks separate tokens. -/
theorem tokens?_blank (cs : List Char) : tokens? (' ' :: cs) = tokens? cs := by
  rw [tokens?, if_pos rfl]

/-- The tokens of a text that starts with one. -/
theorem tokens?_of_token? {t : Token} (h : token? cs = some (t, rest)) :
    tokens? cs = (tokens? rest).map (t :: ·) := by
  cases cs with
  | nil => exact absurd h (by simp [token?])
  | cons c cs =>
    have hblank : c ≠ ' ' := by
      rintro rfl
      exact absurd h (by simp [token?, isNameStart, sign?])
    rw [tokens?, if_neg hblank]
    split
    · next t' rest' h' => rw [h] at h'; cases h'; rfl
    · next h' => rw [h] at h'; cases h'

/-- A text is cut into tokens up to a rest of it. -/
def Scans (cs : List Char) (ts : List Token) (rest : List Char) : Prop :=
  tokens? cs = (tokens? rest).map (ts ++ ·)

namespace Scans

variable {cs mid rest : List Char} {ts us : List Token} {t : Token}

theorem refl (cs : List Char) : Scans cs [] cs := by
  simp [Scans]

theorem blank (h : Scans cs ts rest) : Scans (' ' :: cs) ts rest := by
  rw [Scans, tokens?_blank]
  exact h

theorem token (h : token? cs = some (t, mid)) (hrest : Scans mid ts rest) :
    Scans cs (t :: ts) rest := by
  rw [Scans, tokens?_of_token? h, hrest, Option.map_map]
  rfl

/-- Texts are cut one after the other. -/
theorem trans (h : Scans cs ts mid) (h' : Scans mid us rest) : Scans cs (ts ++ us) rest := by
  rw [Scans, h, h', Option.map_map]
  congr 1
  funext vs
  exact (List.append_assoc ts us vs).symm

/-- A text that is cut to its end. -/
theorem tokens?_eq (h : Scans cs ts []) : tokens? cs = some ts := by
  rw [h, tokens?_nil, Option.map_some, List.append_nil]

end Scans

/-! ## Grammar -/

/-- A production for a sign: how tightly what it makes binds, and how tightly its
operands have to. -/
structure Production where
  level : Level
  left : Level
  right : Level

/-- The productions. Every sign may be repeated on its left, a power on its right. -/
def production : BinarySign → Production
  | .bitOr => ⟨Level.bitOr, Level.bitOr, Level.bitXor⟩
  | .bitXor => ⟨Level.bitXor, Level.bitXor, Level.bitAnd⟩
  | .bitAnd => ⟨Level.bitAnd, Level.bitAnd, Level.shift⟩
  | .lShift | .rShift => ⟨Level.shift, Level.shift, Level.sum⟩
  | .add | .sub => ⟨Level.sum, Level.sum, Level.product⟩
  | .mult | .div | .floorDiv | .mod => ⟨Level.product, Level.product, Level.factor⟩
  | .pow => ⟨Level.power, Level.awaiting, Level.factor⟩

/-- What tokens say where a level is asked for. -/
inductive Derives : Level → List Token → Term → Prop
  | name {level : Level} {w : List Char} (hw : String.ofList w ∉ keywords) :
      Derives level [.word w] (.name (.text (String.ofList w)) .load)
  | number {level : Level} (n : Nat) : Derives level [.number n] (.constant (.int n))
  | group {level : Level} {ts : List Token} {t : Term} (h : Derives Level.test ts t) :
      Derives level (.opening :: (ts ++ [.closing])) t
  | operation {level : Level} {s : BinarySign} {ts us : List Token} {a b : Term}
      (hlevel : level ≤ (production s).level) (hleft : Derives (production s).left ts a)
      (hright : Derives (production s).right us b) :
      Derives level (ts ++ .sign s :: us) (.binary a s b)

/-- What a text says, if it is a statement that gives back an operation. -/
def Reads (text : String) (t : Term) : Prop :=
  ∃ ts u, tokens? text.toList = some (.word "return".toList :: ts) ∧
    Derives Level.test ts u ∧ t = .giveBack u

/-- What binds tightly enough for one level does for every looser one. -/
theorem Derives.weaken {low high : Level} (h : Derives high ts t) (hle : low ≤ high) :
    Derives low ts t := by
  cases h with
  | name hw => exact .name hw
  | number n => exact .number n
  | group h => exact .group h
  | operation hlevel hleft hright => exact .operation (Nat.le_trans hle hlevel) hleft hright

/-- The four ways to derive a term, for tokens of any shape. -/
theorem Derives.shape (h : Derives level ts t) :
    (∃ w, ts = [.word w] ∧ t = .name (.text (String.ofList w)) .load) ∨
    (∃ n : Nat, ts = [.number n] ∧ t = .constant (.int n)) ∨
    (∃ us, ts = .opening :: (us ++ [.closing]) ∧ Derives Level.test us t) ∨
    (∃ s us vs a b, ts = us ++ .sign s :: vs ∧ t = .binary a s b ∧
      level ≤ (production s).level ∧ Derives (production s).left us a ∧
      Derives (production s).right vs b) := by
  cases h with
  | @name _ w hw => exact .inl ⟨w, rfl, rfl⟩
  | number n => exact .inr (.inl ⟨n, rfl, rfl⟩)
  | @group _ us _ h => exact .inr (.inr (.inl ⟨us, rfl, h⟩))
  | @operation _ s us vs a b hlevel hleft hright =>
    exact .inr (.inr (.inr ⟨s, us, vs, a, b, rfl, rfl, hlevel, hleft, hright⟩))

/-! ## Balance -/

/-- The weight of all tokens together. -/
def total (weight : Token → Int) : List Token → Int
  | [] => 0
  | t :: ts => weight t + total weight ts

theorem total_append (weight : Token → Int) (ts us : List Token) :
    total weight (ts ++ us) = total weight ts + total weight us := by
  induction ts with
  | nil => simp [total]
  | cons t ts ih =>
    rw [List.cons_append, total, total, ih]
    omega

/-- What a token does to the number of open parentheses. -/
def Token.rise : Token → Int
  | .opening => 1
  | .closing => -1
  | _ => 0

/-- How many parentheses tokens leave open. -/
def depth (ts : List Token) : Int :=
  total Token.rise ts

@[simp]
theorem depth_nil : depth [] = 0 :=
  rfl

@[simp]
theorem depth_cons (t : Token) (ts : List Token) : depth (t :: ts) = t.rise + depth ts :=
  rfl

@[simp]
theorem depth_append (ts us : List Token) : depth (ts ++ us) = depth ts + depth us :=
  total_append Token.rise ts us

/-- A list that is a sign between two parts is cut in the first part, at the sign or in
the second one. -/
theorem split_at_sign {ts us m b : List Token} (h : ts ++ .sign s :: us = m ++ b) :
    (∃ b', ts = m ++ b' ∧ b = b' ++ .sign s :: us) ∨
      ∃ m', m = ts ++ .sign s :: m' ∧ us = m' ++ b := by
  rcases List.append_eq_append_iff.mp h with ⟨m', hm, hb⟩ | ⟨b', hts, hb⟩
  · cases m' with
    | nil => exact .inl ⟨[], by simpa using hm.symm, by simpa using hb.symm⟩
    | cons t m' =>
      rw [List.cons_append, List.cons.injEq] at hb
      exact .inr ⟨m', by rw [hm, hb.1], hb.2⟩
  · exact .inl ⟨b', hts, hb⟩

/-- **Balance.** What is derived closes every parenthesis that it opens, and none that
it does not. -/
theorem Derives.balanced (h : Derives level ts t) :
    depth ts = 0 ∧ ∀ m b, ts = m ++ b → 0 ≤ depth m := by
  induction h with
  | name | number =>
    refine ⟨rfl, ?_⟩
    rintro (_ | ⟨t, m⟩) b hb
    · exact Int.le_refl 0
    · simp only [List.cons_append, List.cons.injEq, List.nil_eq, List.append_eq_nil_iff] at hb
      obtain ⟨rfl, rfl, rfl⟩ := hb
      exact Int.le_refl 0
  | @group _ ts _ h ih =>
    obtain ⟨hts, ihm⟩ := ih
    refine ⟨by simp [hts, Token.rise], ?_⟩
    rintro (_ | ⟨t, m⟩) b hb
    · exact Int.le_refl 0
    rw [List.cons_append, List.cons.injEq] at hb
    obtain ⟨rfl, hb⟩ := hb
    rw [depth_cons, show Token.opening.rise = 1 from rfl]
    -- Either the cut is inside the parentheses, or behind the closing one.
    rcases List.append_eq_append_iff.mp hb with ⟨m', rfl, hm'⟩ | ⟨b', hts', -⟩
    · rcases m' with _ | ⟨t, m'⟩
      · simp [hts]
      · rw [List.cons_append, List.cons.injEq, List.nil_eq, List.append_eq_nil_iff] at hm'
        obtain ⟨rfl, rfl, -⟩ := hm'
        simp [hts, Token.rise]
    · have := ihm m b' hts'
      omega
  | @operation _ s ts us _ _ _ _ _ ihl ihr =>
    refine ⟨by simp [ihl.1, ihr.1, Token.rise], ?_⟩
    intro m b hb
    rcases split_at_sign hb with ⟨b', hts, -⟩ | ⟨m', rfl, hus⟩
    · exact ihl.2 m b' hts
    · have := ihr.2 m' b hus
      simp only [depth_append, depth_cons, ihl.1, show (Token.sign s).rise = 0 from rfl]
      omega

/-- No sign of a group is outside its parentheses. -/
theorem depth_pos_of_group {ts m b : List Token} (hts : ∀ m b, ts = m ++ b → 0 ≤ depth m)
    (h : .opening :: (ts ++ [.closing]) = m ++ Token.sign s :: b) : 0 < depth m := by
  rcases m with _ | ⟨t, m⟩
  · simp at h
  rw [List.cons_append, List.cons.injEq] at h
  obtain ⟨rfl, h⟩ := h
  rw [depth_cons, show Token.opening.rise = 1 from rfl]
  rcases List.append_eq_append_iff.mp h with ⟨m', rfl, hm'⟩ | ⟨b', hts', -⟩
  · -- Only the closing parenthesis is left for the sign.
    rcases m' with _ | ⟨t, m'⟩ <;> simp at hm'
  · have := hts m b' hts'
    omega

/-- A sign outside all parentheses binds at least as tightly as the level asks. -/
theorem Derives.level_le (h : Derives level ts t) :
    ∀ {m b : List Token} {s : BinarySign}, ts = m ++ .sign s :: b → depth m = 0 →
      level ≤ (production s).level := by
  induction h with
  | name | number =>
    rintro (_ | ⟨t, m⟩) b s hb - <;> simp at hb
  | group h _ =>
    intro m b s hb hm
    have := depth_pos_of_group h.balanced.2 hb
    omega
  | @operation _ r ts us _ _ hlevel hleft hright ihl ihr =>
    intro m b s hb hm
    rcases split_at_sign hb with ⟨b', hts, hb'⟩ | ⟨m', rfl, hus⟩
    · rcases b' with _ | ⟨t, b'⟩
      · rw [List.nil_append, List.cons.injEq, Token.sign.injEq] at hb'
        exact hb'.1 ▸ hlevel
      · rw [List.cons_append, List.cons.injEq] at hb'
        have hle := ihl (hb'.1 ▸ hts) hm
        have hmono : (production r).level ≤ (production r).left := by
          cases r <;> decide
        exact Nat.le_trans hlevel (Nat.le_trans hmono hle)
    · have hm' : depth m' = 0 := by
        simpa [hleft.balanced.1, Token.rise] using hm
      have hle := ihr hus hm'
      -- The right operand of a power may be a signed number, so it may be looser by itself;
      -- but no sign stands at that level.
      have hmono : (production r).right ≤ (production s).level →
          (production r).level ≤ (production s).level := by
        cases r <;> cases s <;> decide
      exact Nat.le_trans hlevel (hmono hle)

/-- Two signs cannot both stand outside the parentheses of the operand that the other
one has on that side. -/
theorem not_both_outer (r s : BinarySign) :
    ¬ ((production r).right ≤ (production s).level ∧ (production s).left ≤ (production r).level) := by
  cases r <;> cases s <;> decide

/-- The operands of one operation and of another one with the same tokens are the same
tokens. -/
theorem same_split {r s : BinarySign} {ts us ts' us' : List Token} {a b a' b' : Term}
    (h : ts ++ .sign r :: us = ts' ++ .sign s :: us') (hl : Derives (production r).left ts a)
    (hr : Derives (production r).right us b) (hl' : Derives (production s).left ts' a')
    (hr' : Derives (production s).right us' b') : ts = ts' ∧ r = s ∧ us = us' := by
  rcases split_at_sign h with ⟨m, rfl, hm⟩ | ⟨m, rfl, hm⟩
  · rcases m with _ | ⟨t, m⟩
    · rw [List.nil_append, List.cons.injEq, Token.sign.injEq] at hm
      exact ⟨by simp, hm.1.symm, hm.2.symm⟩
    · -- The second sign is in the first left operand, the first one in the second right operand.
      rw [List.cons_append, List.cons.injEq] at hm
      obtain ⟨rfl, rfl⟩ := hm
      have hdepth : depth m = 0 := by
        have := hl.balanced.1
        simpa [hl'.balanced.1, Token.rise] using this
      exact absurd ⟨hr'.level_le rfl hdepth, hl.level_le rfl hl'.balanced.1⟩ (not_both_outer s r)
  · have hdepth : depth m = 0 := by
      have := hl'.balanced.1
      simpa [hl.balanced.1, Token.rise] using this
    exact absurd ⟨hr.level_le hm hdepth, hl'.level_le rfl hl.balanced.1⟩ (not_both_outer r s)

/-- **One reading.** Tokens say one thing at most. -/
theorem Derives.unique (h : Derives level ts t) : ∀ {t' : Term}, Derives level ts t' → t = t' := by
  induction h with
  | name =>
    intro t' h'
    rcases h'.shape with ⟨w, hw, rfl⟩ | ⟨n, hn, rfl⟩ | ⟨us, hus, -⟩ | ⟨s, us, vs, a, b, hus, -⟩
    · cases hw; rfl
    · cases hn
    · cases hus
    · rcases us with _ | ⟨u, us⟩ <;> simp at hus
  | number =>
    intro t' h'
    rcases h'.shape with ⟨w, hw, rfl⟩ | ⟨n, hn, rfl⟩ | ⟨us, hus, -⟩ | ⟨s, us, vs, a, b, hus, -⟩
    · cases hw
    · cases hn; rfl
    · cases hus
    · rcases us with _ | ⟨u, us⟩ <;> simp at hus
  | group h ih =>
    intro t' h'
    rcases h'.shape with ⟨w, hw, -⟩ | ⟨n, hn, -⟩ | ⟨us, hus, ht⟩ | ⟨s, us, vs, a, b, hus, -, -, hl, -⟩
    · simp at hw
    · simp at hn
    · rw [List.cons.injEq, List.append_left_inj] at hus
      exact ih (hus.2 ▸ ht)
    · have := depth_pos_of_group h.balanced.2 hus
      exact absurd hl.balanced.1 (by omega)
  | @operation _ r ts us _ _ hlevel hleft hright ihl ihr =>
    intro t' h'
    rcases h'.shape with ⟨w, hw, -⟩ | ⟨n, hn, -⟩ | ⟨vs, hvs, ht⟩ | ⟨s, us', vs', a, b, hus, rfl, -, hl, hr⟩
    · rcases ts with _ | ⟨t, ts⟩ <;> simp at hw
    · rcases ts with _ | ⟨t, ts⟩ <;> simp at hn
    · have := depth_pos_of_group ht.balanced.2 hvs.symm
      exact absurd hleft.balanced.1 (by omega)
    · obtain ⟨rfl, rfl, rfl⟩ := same_split hus hleft hright hl hr
      rw [ihl hl, ihr hr]

/-- A text says one thing at most. -/
theorem Reads.unique {text : String} {t t' : Term} (h : Reads text t) (h' : Reads text t') :
    t = t' := by
  obtain ⟨ts, u, hts, hu, rfl⟩ := h
  obtain ⟨ts', u', hts', hu', rfl⟩ := h'
  rw [hts, Option.some.injEq, List.cons.injEq] at hts'
  rw [hu.unique (hts'.2 ▸ hu')]

/-! ## Operands -/

/-- What a token adds to the number of operands or takes from it as a sign. -/
def Token.surplus : Token → Int
  | .word _ | .number _ => 1
  | .sign _ => -1
  | _ => 0

/-- Signs stand between operands: there is one operand more. -/
theorem Derives.total_surplus (h : Derives level ts t) : total Token.surplus ts = 1 := by
  induction h with
  | name | number => rfl
  | group _ ih => simp [total, total_append, ih, Token.surplus]
  | operation _ _ _ ihl ihr => simp [total, total_append, ihl, ihr, Token.surplus]

end ProgramTree.Target.Reading
