/-
Lines of a drawing.

A drawing has one line for each stroke as long as no label breaks a line, and a reader of a
declaration finds its label as long as every backslash of the label is one of a pair wherever that
matters. Escaping looks after double quotes only, so both can fail (`drawing_lines_iff`): line
feeds stay as they are, and a backslash before a quote or at the end takes the escape away from
where it was meant to be.
-/
import ProgramTree.Proofs.Drawings.Reach

namespace ProgramTree

/-! ## Texts and their lines -/

namespace Text

theorem lines_go_append {cs : List Char} (hcs : '\n' ∉ cs) (rest acc : List Char) :
    lines.go (cs ++ rest) acc = lines.go rest (cs.reverse ++ acc) := by
  induction cs generalizing acc with
  | nil => rfl
  | cons c cs ih =>
    obtain ⟨hc, hcs⟩ := List.ne_and_not_mem_of_not_mem_cons hcs
    have hgo : lines.go (c :: (cs ++ rest)) acc = lines.go (cs ++ rest) (c :: acc) :=
      lines.go.eq_3 _ _ _ fun heq => hc heq.symm
    rw [List.cons_append, hgo, ih hcs, List.reverse_cons, List.append_assoc, List.singleton_append]

/-- Texts without line feeds are the lines of the text that they make, each with one at its
end. -/
theorem lines_intercalate {ls : List String} (h : ∀ l ∈ ls, '\n' ∉ l.toList) :
    lines (String.intercalate "\n" (ls ++ [""])) = ls ++ [""] := by
  induction ls with
  | nil => rfl
  | cons l rest ih =>
    obtain ⟨hl, hrest⟩ := List.forall_mem_cons.mp h
    have hlines := ih hrest
    obtain ⟨l', rest', heq⟩ : ∃ l' rest', rest ++ [""] = l' :: rest' :=
      List.exists_cons_of_ne_nil (by simp)
    rw [lines] at hlines
    rw [List.cons_append, heq, String.intercalate_cons_cons, ← heq, lines, String.toList_append,
      String.toList_append, List.append_assoc, lines_go_append hl, List.append_nil]
    change lines.go ('\n' :: (String.intercalate "\n" (rest ++ [""])).toList) _ = _
    rw [lines.go, List.reverse_reverse, String.ofList_toList, hlines]

theorem not_mem_lines_go (cs acc : List Char) (hacc : '\n' ∉ acc) :
    ∀ l ∈ lines.go cs acc, '\n' ∉ l.toList := by
  fun_induction lines.go cs acc with
  | case1 acc => simpa using hacc
  | case2 acc cs ih => simpa using ⟨hacc, ih List.not_mem_nil⟩
  | case3 acc c cs hc ih =>
    refine ih fun hmem => ?_
    rcases List.mem_cons.mp hmem with rfl | hmem
    · exact hc rfl
    · exact hacc hmem

/-- Texts are the lines of the text that they make just if none of them has a line feed. -/
theorem lines_eq_iff {ls : List String} (hne : ls ≠ []) :
    lines (String.intercalate "\n" ls ++ "\n") = ls ++ [""] ↔ ∀ l ∈ ls, '\n' ∉ l.toList := by
  have htext : String.intercalate "\n" ls ++ "\n" = String.intercalate "\n" (ls ++ [""]) := by
    rw [String.intercalate_append_of_ne_nil hne (by simp), String.intercalate_singleton,
      String.append_empty]
  rw [htext]
  refine ⟨fun h l hl => ?_, lines_intercalate⟩
  have hmem : l ∈ lines (String.intercalate "\n" (ls ++ [""])) := by
    rw [h]
    exact List.mem_append_left _ hl
  exact not_mem_lines_go _ [] List.not_mem_nil l hmem

theorem mem_replaceChar {c d : Char} {by_ s : String} (hd : d ≠ c) (hby : d ∉ by_.toList) :
    d ∈ (replaceChar c by_ s).toList ↔ d ∈ s.toList := by
  rw [replaceChar, String.toList_join, List.flatMap_map, List.mem_flatMap]
  constructor
  · rintro ⟨e, he, hmem⟩
    split at hmem
    · exact absurd hmem hby
    · rw [Char.toString, String.toList_singleton, List.mem_singleton] at hmem
      exact hmem ▸ he
  · intro hmem
    refine ⟨d, hmem, ?_⟩
    rw [if_neg (by simpa using hd)]
    simp

end Text

namespace Drawing

open Look

/-! ## Labels -/

/-- What a reader of a quoted text finds after the opening quote: the characters up to the first
double quote that no backslash escapes, and those after it. -/
def cutAtQuote : List Char → Option (List Char × List Char)
  | [] => none
  | '\x22' :: rest => some ([], rest)
  | '\\' :: c :: rest => (cutAtQuote rest).map fun p => ('\\' :: c :: p.1, p.2)
  | c :: rest => (cutAtQuote rest).map fun p => (c :: p.1, p.2)

/-- What a reader finds as the label of a line, and what is left of the line after it. -/
def readLabel (line : String) : Option (List Char × List Char) :=
  cutAtQuote ((line.toList.dropWhile (· != '\x22')).drop 1)

/-- Whether no backslash that is left over from pairs stands before a double quote or at the
end. -/
def isPaired : List Char → Bool
  | [] => true
  | ['\\'] => false
  | '\\' :: '\x22' :: _ => false
  | '\\' :: _ :: rest => isPaired rest
  | _ :: rest => isPaired rest

/-- The characters of a label with its double quotes escaped. -/
def escapedChars : List Char → List Char
  | [] => []
  | '\x22' :: rest => '\\' :: '\x22' :: escapedChars rest
  | c :: rest => c :: escapedChars rest

theorem toList_escaped (label : String) : (escaped label).toList = escapedChars label.toList := by
  rw [escaped, Text.replaceChar, String.toList_join, List.flatMap_map]
  induction label.toList with
  | nil => rfl
  | cons c cs ih =>
    rw [List.flatMap_cons, ih]
    by_cases hc : c = '\x22'
    · subst hc
      rfl
    · rw [if_neg (by simpa using hc), escapedChars.eq_3 _ _ hc]
      simp

theorem map_cut_eq_iff {g : List Char → List Char} (hg : Function.Injective g)
    {cut : Option (List Char × List Char)} {cs rest : List Char} :
    cut.map (fun p => (g p.1, p.2)) = some (g cs, rest) ↔ cut = some (cs, rest) := by
  have hinj : Function.Injective fun p : List Char × List Char => (g p.1, p.2) := fun p q h =>
    Prod.ext (hg (Prod.mk.inj h).1) (Prod.mk.inj h).2
  exact (Option.map_injective hinj).eq_iff (b := some (cs, rest))

theorem cutAtQuote_escaped_iff (cs rest : List Char) :
    cutAtQuote (escapedChars cs ++ '\x22' :: rest) = some (escapedChars cs, rest) ↔
      isPaired cs = true := by
  fun_induction isPaired cs with
  | case1 => simp [escapedChars, cutAtQuote]
  | case2 => simp [escapedChars, cutAtQuote, Option.map_eq_some_iff]
  | case3 tail => simp [escapedChars, cutAtQuote]
  | case4 c tail hc ih =>
    have hescaped : escapedChars ('\\' :: c :: tail) = '\\' :: c :: escapedChars tail := by
      rw [escapedChars.eq_3 _ _ (by decide), escapedChars.eq_3 _ _ hc]
    rw [hescaped, List.cons_append, List.cons_append, cutAtQuote, ← ih]
    exact map_cut_eq_iff (List.append_right_injective ['\\', c])
  | case5 c tail hc hc' hc'' ih =>
    rw [← ih]
    by_cases hquote : c = '\x22'
    · subst hquote
      rw [escapedChars, List.cons_append, List.cons_append, cutAtQuote]
      exact map_cut_eq_iff (List.append_right_injective ['\\', '\x22'])
    · have hplain : c ≠ '\\' := by
        rintro rfl
        cases tail with
        | nil => exact hc rfl rfl
        | cons d tail => exact hc'' d tail rfl rfl
      rw [escapedChars.eq_3 _ _ hquote, List.cons_append,
        cutAtQuote.eq_4 _ _ hquote fun _ _ h => absurd h hplain]
      exact map_cut_eq_iff (List.append_right_injective [c])

/-! ## Names -/

theorem isAlphanum_hexOfBytes (bytes : List UInt8) :
    ∀ c ∈ (Digest.hexOfBytes bytes).toList, c.isAlphanum = true := by
  have hdigit : ∀ n < 16, ((Nat.toDigits 16 n).headD '0').isAlphanum = true := by decide
  intro c hc
  simp only [Digest.hexOfBytes, String.toList_ofList, List.mem_flatMap, List.mem_cons,
    List.not_mem_nil, or_false] at hc
  obtain ⟨b, -, rfl | rfl⟩ := hc
  · exact hdigit _ (Nat.div_lt_of_lt_mul b.toNat_lt)
  · exact hdigit _ (Nat.mod_lt _ (by decide))

/-- The name of a declared box is made of letters and digits. -/
theorem isAlphanum_name (e : Entry) : ∀ c ∈ (e.name .declared).toList, c.isAlphanum = true := by
  rw [Entry.name]
  cases hid : e.id? with
  | error fault => simp [Except.toOption]
  | ok id =>
    obtain ⟨ref, -, hid⟩ := Look.bind_eq_ok.mp hid
    obtain ⟨written, -, hid⟩ := Look.bind_eq_ok.mp hid
    cases hid
    intro c hc
    simp only [Except.toOption, Option.getD_some, String.toList_append, List.mem_append] at hc
    rcases hc with hc | hc
    · rw [List.mem_singleton.mp hc]
      rfl
    · rw [Digest.Md5.ofText] at hc
      exact isAlphanum_hexOfBytes _ c (List.mem_of_mem_take (by simpa using hc))

theorem not_mem_name (e : Entry) {c : Char} (hc : c.isAlphanum = false) :
    c ∉ (e.name .declared).toList := fun hmem => by
  rw [isAlphanum_name e c hmem] at hc
  cases hc

/-! ## Lines -/

/-- The entries that a drawing shows. -/
def shown (outline : Doc) : List Sighting :=
  (sightings outline).filter fun a => !a.isAside

/-- The labels in the lines for an entry: its own, and that of the arrow to it. -/
def Sighting.labels (a : Sighting) : List String :=
  a.entry.key :: (a.arrow?.bind fun b => b.2.1).toList

theorem mem_escaped {label : String} : '\n' ∈ (escaped label).toList ↔ '\n' ∈ label.toList :=
  Text.mem_replaceChar (by decide) (by decide)

/-- The lines for an entry have line feeds just if its labels do. -/
theorem Sighting.forall_lines_iff (a : Sighting) :
    (∀ l ∈ a.lines, '\n' ∉ l.toList) ↔ ∀ label ∈ a.labels, '\n' ∉ label.toList := by
  have hname (e : Entry) := not_mem_name e (c := '\n') rfl
  have hdeclaration : '\n' ∈ (declaration a.entry).toList ↔ '\n' ∈ a.entry.key.toList := by
    simp [declaration, hname, mem_escaped]
  rw [Sighting.lines, Sighting.labels, List.forall_mem_cons, List.forall_mem_cons, hdeclaration]
  refine and_congr Iff.rfl ?_
  cases a.arrow? with
  | none => simp
  | some b =>
    obtain ⟨source, label, target⟩ := b
    cases label with
    | none => simp [declaredArrow, hname]
    | some label => simp [declaredArrow, hname, mem_escaped]

theorem readLabel_declaration_iff (e : Entry) :
    readLabel (declaration e) = some ((escaped e.key).toList, [']']) ↔
      isPaired e.key.toList = true := by
  have hdrop : (declaration e).toList.dropWhile (· != '\x22') =
      '\x22' :: (escapedChars e.key.toList ++ ['\x22', ']']) := by
    have hname : ∀ c ∈ (e.name .declared).toList ++ ['['], (c != '\x22') = true := by
      intro c hc
      rw [bne_iff_ne]
      rintro rfl
      rcases List.mem_append.mp hc with hc | hc
      · exact not_mem_name e rfl hc
      · exact absurd hc (by decide)
    have hchars : (declaration e).toList = ((e.name .declared).toList ++ ['[']) ++
        '\x22' :: (escapedChars e.key.toList ++ ['\x22', ']']) := by
      simp [declaration, toList_escaped]
    rw [hchars, List.dropWhile_append_of_pos hname]
    rfl
  rw [readLabel, hdrop, toList_escaped]
  exact cutAtQuote_escaped_iff ..

variable {s : Store} {v : Value}

/-- **Lines.** The drawing of a node has one line for the direction, one for each entry shown and
one for each arrow, just if no label has a line feed; and a reader finds the label of an entry just
if no backslash in it is left over from pairs. -/
theorem drawing_lines_iff {x : Doc} (hs : Built s) (h : run (outline false v) s = .ok x)
    (direction : Direction) : ∃ text, draw .declared direction.word x = .ok text ∧
      (Text.lines text = header direction :: (shown x).flatMap Sighting.lines ++ [""] ↔
        ∀ a ∈ shown x, ∀ label ∈ a.labels, '\n' ∉ label.toList) ∧
      ∀ a ∈ shown x, (readLabel (declaration a.entry) =
        some ((escaped a.entry.key).toList, [']']) ↔ isPaired a.entry.key.toList = true) := by
  have hreaches := (yields_toDepth (b := false) hs (s.cells.size + 1) [] v nofun (.inl rfl)
    x h).1.reaches direction
  have htext : draw .declared direction.word x = .ok (String.intercalate "\n"
      (header direction :: (shown x).flatMap Sighting.lines) ++ "\n") := by
    rw [hreaches.text, hreaches.declared]
    rfl
  have hheader : '\n' ∉ (header direction).toList := by cases direction <;> decide
  refine ⟨_, htext, ?_, fun a _ => readLabel_declaration_iff a.entry⟩
  rw [Text.lines_eq_iff (List.cons_ne_nil _ _), List.forall_mem_cons, and_iff_right hheader,
    List.forall_mem_flatMap]
  exact forall₂_congr fun a _ => a.forall_lines_iff

/-- What is made for a text that has a line feed and ends in a backslash. -/
def brokenText : List Making :=
  [.node .literalString [] [(.value, .text "a\n\\")]]

/-- The drawing of such a text is torn apart, and its label does not end. -/
theorem brokenText_lines : ∃ s x text, Store.made? brokenText = some s ∧
    run (outline false (.ref 21)) s = .ok x ∧ draw .declared "TD" x = .ok text ∧
    Text.lines text ≠ header .down :: (shown x).flatMap Sighting.lines ++ [""] ∧
    ∃ a ∈ shown x, readLabel (declaration a.entry) ≠ some ((escaped a.entry.key).toList, [']']) := by
  obtain ⟨s, hs, hkeys⟩ := (Option.any_eq_true _ _).mp (show (Store.made? brokenText).any
    (fun s => decide ((run (outline false (.ref 21)) s).map (fun x => (shown x).map fun a =>
      a.entry.key) = .ok ["LiteralString: a\n\\"])) = true by decide +kernel)
  cases hx : run (outline false (.ref 21)) s with
  | error e =>
    rw [hx] at hkeys
    cases hkeys
  | ok x =>
    rw [hx] at hkeys
    have hshown : (shown x).map (fun a => a.entry.key) = ["LiteralString: a\n\\"] :=
      Except.ok.inj (of_decide_eq_true hkeys)
    obtain ⟨a, ha, hkey⟩ : ∃ a ∈ shown x, a.entry.key = "LiteralString: a\n\\" :=
      List.mem_map.mp (hshown ▸ List.mem_singleton_self _)
    obtain ⟨text, htext, hlines, hlabels⟩ := drawing_lines_iff (built_of_made hs) hx .down
    refine ⟨s, x, text, hs, hx, htext, fun h => ?_, a, ha, fun h => ?_⟩
    · exact hlines.mp h a ha _ (List.mem_cons_self ..) (by rw [hkey]; decide)
    · have := (hlabels a ha).mp h
      rw [hkey] at this
      exact absurd this (by decide)

end Drawing

end ProgramTree
