/-
Outlines without their metadata.

A full outline has beside the content of each node its metadata, and a simplified one has
the content alone. `Doc.stripped` takes a full outline and leaves the metadata out;
`Doc.Matches` compares what is left with a simplified outline, in which some keys carry
numbers. What stands under the key of an argument is not compared.

Both kinds of outlines are plain data (`Doc.Plain`), and a pair of them that agrees in all
this (`Doc.Agree`) is made of pairs that do.
-/
import Mathlib.Data.List.Forall2
import ProgramTree.Proofs.Grammar

namespace ProgramTree.Doc

/-! ## Plain data -/

/-- Documents that are made of absence, truth values, numbers, texts, lists, and
dictionaries whose keys are texts. -/
inductive Plain : Doc → Prop
  | scalar {d : Doc} : d.isScalar = true → Plain d
  | list {xs : List Doc} : (∀ x ∈ xs, Plain x) → Plain (.list xs)
  | dict {es : List (Doc × Doc)} : (∀ e ∈ es, ∃ k, e.1 = .text k) → (∀ e ∈ es, Plain e.2) →
      Plain (.dict es)

theorem Plain.record {es : List (String × Doc)} (h : ∀ e ∈ es, e.2.Plain) : Plain (.record es) := by
  refine .dict (fun e he => ?_) fun e he => ?_
  · obtain ⟨d, -, rfl⟩ := List.mem_map.mp he
    exact ⟨d.1, rfl⟩
  · obtain ⟨d, hd, rfl⟩ := List.mem_map.mp he
    exact h d hd

theorem Plain.single {key : String} {d : Doc} (h : d.Plain) : Plain (.single key d) := by
  refine .record fun e he => ?_
  obtain rfl := List.mem_singleton.mp he
  exact h

/-! ## Without metadata -/

/-- The content that stands beside metadata, and what is managed by an item of a managed
context; any other dictionary stays. -/
def unwrapped : List (Doc × Doc) → Doc
  | [(.text "content", d), (.text "metadata", _)] => d
  | [(.text "WithItem", d)] => d
  | es => .dict es

mutual

/-- What is left of a full outline without the metadata. -/
def stripped : Doc → Doc
  | .list xs => .list (strippedEach xs)
  | .dict es => unwrapped (strippedEntries es)
  | d => d

/-- The same for each of several documents. -/
def strippedEach : List Doc → List Doc
  | [] => []
  | x :: rest => x.stripped :: strippedEach rest

/-- The same for each value of a dictionary. -/
def strippedEntries : List (Doc × Doc) → List (Doc × Doc)
  | [] => []
  | (k, x) :: rest => (k, x.stripped) :: strippedEntries rest

end

/-- Whether a key is that of an argument. -/
def isArgumentKey (key : String) : Bool :=
  "Argument[".toList.isPrefixOf key.toList

mutual

/-- Whether a document has metadata, not counting what stands under the key of an
argument. -/
def hasMetadata : Doc → Bool
  | .list xs => anyHasMetadata xs
  | .dict es => entriesHaveMetadata es
  | _ => false

/-- Whether one of several documents has metadata. -/
def anyHasMetadata : List Doc → Bool
  | [] => false
  | x :: rest => x.hasMetadata || anyHasMetadata rest

/-- Whether a dictionary has metadata. -/
def entriesHaveMetadata : List (Doc × Doc) → Bool
  | [] => false
  | (.text k, x) :: rest =>
    k = "metadata" || (!isArgumentKey k && x.hasMetadata) || entriesHaveMetadata rest
  | (_, x) :: rest => x.hasMetadata || entriesHaveMetadata rest

end

/-- A key, and the same key with a number or without one. -/
inductive Marked : String → String → Prop
  | same (key : String) : Marked key key
  | numbered (key : String) (n : Nat) : Marked key (key ++ "[" ++ toString n ++ "]")
  | hashed (key : String) (n : Nat) : Marked key (key ++ "#" ++ toString n)
  | otherwise (n : Nat) :
      Marked "CASE-STMT[default]" ("CASE-STMT[" ++ toString n ++ ", default]")

mutual

/-- Two documents that differ in numbers in keys only, and in what stands under the key of
an argument. -/
inductive Matches : Doc → Doc → Prop
  | scalar {d : Doc} : d.isScalar = true → Matches d d
  | list {xs ys : List Doc} : MatchesEach xs ys → Matches (.list xs) (.list ys)
  | dict {es fs : List (Doc × Doc)} : MatchesEntries es fs → Matches (.dict es) (.dict fs)

/-- The same for each of several documents. -/
inductive MatchesEach : List Doc → List Doc → Prop
  | nil : MatchesEach [] []
  | cons {x y : Doc} {xs ys : List Doc} :
      Matches x y → MatchesEach xs ys → MatchesEach (x :: xs) (y :: ys)

/-- The same for each entry of two dictionaries. -/
inductive MatchesEntries : List (Doc × Doc) → List (Doc × Doc) → Prop
  | nil : MatchesEntries [] []
  | cons {k l : String} {x y : Doc} {es fs : List (Doc × Doc)} :
      Marked k l → Matches x y → MatchesEntries es fs →
      MatchesEntries ((.text k, x) :: es) ((.text l, y) :: fs)
  | argument {k : String} {x y : Doc} {es fs : List (Doc × Doc)} :
      isArgumentKey k = true → MatchesEntries es fs →
      MatchesEntries ((.text k, x) :: es) ((.text k, y) :: fs)

end

/-! ## Pairs of outlines that agree -/

/-- A full outline and a simplified one that agree. -/
structure Agree (full simple : Doc) : Prop where
  stripped : Matches full.stripped simple
  clean : simple.hasMetadata = false
  full : full.Plain
  simple : simple.Plain

/-- Keys beside which nothing is left out. -/
def isOrdinary (key : String) : Bool :=
  key ≠ "content" && key ≠ "metadata" && key ≠ "WithItem"

/-- Entries of two outlines that agree. -/
structure AgreeEntry (full simple : String × Doc) : Prop where
  ordinary : isOrdinary full.1 = true ∧ isOrdinary simple.1 = true
  marked : Marked full.1 simple.1
  agree : (isArgumentKey full.1 = true ∧ full.1 = simple.1 ∧ full.2.Plain ∧ simple.2.Plain) ∨
    Agree full.2 simple.2

theorem stripped_of_isScalar {d : Doc} (h : d.isScalar = true) :
    d.stripped = d ∧ d.hasMetadata = false := by
  cases d with
  | null => exact ⟨rfl, rfl⟩
  | bool b => exact ⟨rfl, rfl⟩
  | int n => exact ⟨rfl, rfl⟩
  | float x => exact ⟨rfl, rfl⟩
  | text s => exact ⟨rfl, rfl⟩
  | _ => exact absurd h (by simp [isScalar])

theorem agree_scalar {d : Doc} (h : d.isScalar = true) : Agree d d := by
  obtain ⟨hstripped, hclean⟩ := stripped_of_isScalar h
  exact ⟨hstripped.symm ▸ .scalar h, hclean, .scalar h, .scalar h⟩

theorem Agree.list {xs ys : List Doc} (h : List.Forall₂ Agree xs ys) :
    Agree (.list xs) (.list ys) := by
  have hall : MatchesEach (strippedEach xs) ys ∧ anyHasMetadata ys = false ∧
      (∀ x ∈ xs, x.Plain) ∧ ∀ y ∈ ys, y.Plain := by
    induction h with
    | nil => exact ⟨.nil, rfl, nofun, nofun⟩
    | cons hxy _ ih =>
      obtain ⟨hmatches, hclean, hfull, hsimple⟩ := ih
      refine ⟨.cons hxy.stripped hmatches, ?_, ?_, ?_⟩
      · simp only [anyHasMetadata, hxy.clean, hclean, Bool.or_false]
      · exact List.forall_mem_cons.mpr ⟨hxy.full, hfull⟩
      · exact List.forall_mem_cons.mpr ⟨hxy.simple, hsimple⟩
  obtain ⟨hmatches, hclean, hfull, hsimple⟩ := hall
  exact ⟨.list hmatches, hclean, .list hfull, .list hsimple⟩

theorem strippedEntries_record (es : List (String × Doc)) :
    strippedEntries (es.map fun e => (.text e.1, e.2)) =
      es.map fun e => (.text e.1, e.2.stripped) := by
  induction es with
  | nil => rfl
  | cons e rest ih => rw [List.map_cons, List.map_cons, strippedEntries, ih]

/-- Nothing is left out of a dictionary with ordinary keys. -/
theorem stripped_record {es : List (String × Doc)} (h : ∀ e ∈ es, isOrdinary e.1 = true) :
    stripped (.record es) = .record (es.map fun e => (e.1, e.2.stripped)) := by
  have hne : ∀ {key : String} {d : Doc} {fs : List (Doc × Doc)}, isOrdinary key = false →
      (es.map fun e => (.text e.1, e.2.stripped)) ≠ (.text key, d) :: fs := by
    intro key d fs hkey heq
    obtain ⟨e, rest, rfl, he, -⟩ := List.map_eq_cons_iff.mp heq
    cases he
    rw [h e (List.mem_cons_self ..)] at hkey
    cases hkey
  rw [record, stripped, strippedEntries_record, unwrapped]
  · rw [record, List.map_map]
    rfl
  · exact fun _ _ => hne (by decide)
  · exact fun _ => hne (by decide)

theorem Agree.record {es fs : List (String × Doc)} (h : List.Forall₂ AgreeEntry es fs) :
    Agree (.record es) (.record fs) := by
  have hordinary : ∀ e ∈ es, isOrdinary e.1 = true := by
    induction h with
    | nil => nofun
    | cons hef _ ih => exact List.forall_mem_cons.mpr ⟨hef.ordinary.1, ih⟩
  have hall : MatchesEntries ((es.map fun e => (e.1, e.2.stripped)).map fun e => (.text e.1, e.2))
        (fs.map fun f => (.text f.1, f.2)) ∧
      entriesHaveMetadata (fs.map fun f => (.text f.1, f.2)) = false ∧
      (∀ e ∈ es, e.2.Plain) ∧ ∀ f ∈ fs, f.2.Plain := by
    clear hordinary
    induction h with
    | nil => exact ⟨.nil, rfl, nofun, nofun⟩
    | @cons e f es fs hef _ ih =>
      obtain ⟨hmatches, hclean, hfull, hsimple⟩ := ih
      have hkey : decide (f.1 = "metadata") = false := by
        refine decide_eq_false fun heq => ?_
        have hordinary := hef.ordinary.2
        rw [heq] at hordinary
        exact absurd hordinary (by decide)
      rcases hef.agree with ⟨harg, heq, hplain, hplain'⟩ | hagree
      · refine ⟨?_, ?_, List.forall_mem_cons.mpr ⟨hplain, hfull⟩,
          List.forall_mem_cons.mpr ⟨hplain', hsimple⟩⟩
        · rw [List.map_cons, List.map_cons, List.map_cons, ← heq]
          exact .argument harg hmatches
        · rw [List.map_cons, entriesHaveMetadata, hkey, ← heq, harg, hclean]
          rfl
      · refine ⟨?_, ?_, List.forall_mem_cons.mpr ⟨hagree.full, hfull⟩,
          List.forall_mem_cons.mpr ⟨hagree.simple, hsimple⟩⟩
        · exact .cons hef.marked hagree.stripped hmatches
        · rw [List.map_cons, entriesHaveMetadata, hkey, hagree.clean, hclean, Bool.and_false]
          rfl
  obtain ⟨hmatches, hclean, hfull, hsimple⟩ := hall
  exact ⟨stripped_record hordinary ▸ .dict hmatches, hclean, .record hfull, .record hsimple⟩

/-- A content beside metadata agrees with what it agrees with. -/
theorem Agree.prepared {d simple m : Doc} (h : Agree d simple) (hm : m.Plain) :
    Agree (.record [("content", d), ("metadata", m)]) simple := by
  refine ⟨?_, h.clean, .record fun e he => ?_, h.simple⟩
  · rw [Doc.record, Doc.stripped, strippedEntries_record]
    exact h.stripped
  · simp only [List.mem_cons, List.not_mem_nil, or_false] at he
    rcases he with rfl | rfl
    · exact h.full
    · exact hm

/-- What an item of a managed context has, with its key and without it. -/
theorem Agree.item {d simple : Doc} (h : Agree d simple) : Agree (.single "WithItem" d) simple := by
  refine ⟨?_, h.clean, .single h.full, h.simple⟩
  rw [Doc.single, Doc.record, Doc.stripped, strippedEntries_record]
  exact h.stripped

end ProgramTree.Doc
