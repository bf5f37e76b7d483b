/-
Blank characters, and texts without blanks at their ends.
-/

namespace ProgramTree.Text

/-- The blank characters: the ASCII ones with the four separators below the
space, and the blanks and line separators of Unicode. -/
def isBlank (c : Char) : Bool :=
  let n := c.toNat
  (0x09 ≤ n && n ≤ 0x0D) || (0x1C ≤ n && n ≤ 0x20) || n == 0x85 || n == 0xA0 || n == 0x1680
    || (0x2000 ≤ n && n ≤ 0x200A) || n == 0x2028 || n == 0x2029 || n == 0x202F || n == 0x205F
    || n == 0x3000

/-- Every blank of the ASCII class is blank here. -/
theorem isBlank_of_isWhitespace (c : Char) (h : c.isWhitespace = true) : isBlank c = true := by
  have hc : c = ' ' ∨ c = '\t' ∨ c = '\r' ∨ c = '\n' := by
    simpa [Char.isWhitespace, or_assoc] using h
  rcases hc with rfl | rfl | rfl | rfl <;> decide

/-- A text without the blanks at its two ends. -/
def strip (s : String) : String :=
  String.ofList ((s.toList.dropWhile isBlank).reverse.dropWhile isBlank).reverse

/-- Whether a text has nothing but blanks. -/
def isAllBlank (s : String) : Bool :=
  s.toList.all isBlank

/-- A text repeated `n` times. -/
def repeated (s : String) (n : Nat) : String :=
  String.join (List.replicate n s)

/-- The lines of a text, cut at each line feed; a text without one is one line. -/
def lines (s : String) : List String :=
  go s.toList []
where
  /-- Collects the characters of a line until the next line feed. -/
  go : List Char → List Char → List String
    | [], acc => [String.ofList acc.reverse]
    | '\n' :: cs, acc => String.ofList acc.reverse :: go cs []
    | c :: cs, acc => go cs (c :: acc)

/-- A text in which every `c` is replaced by `by_`. -/
def replaceChar (c : Char) (by_ : String) (s : String) : String :=
  String.join (s.toList.map fun d => if d == c then by_ else d.toString)

/-- Whether the first list of characters occurs somewhere in the second. -/
def occursIn (needle : List Char) : List Char → Bool
  | [] => needle.isEmpty
  | c :: cs => needle.isPrefixOf (c :: cs) || occursIn needle cs

/-- Whether a text occurs in another. -/
def contains (s needle : String) : Bool :=
  occursIn needle.toList s.toList

end ProgramTree.Text
