/-
Documents in YAML, in block style.

Dictionaries and lists are spread over lines, two blanks deeper at each level;
the items of a list that is the value of a simple key stay at the level of the
key. Empty ones are written as `[]` and `{}`. A key that is long, empty, broken
over lines or no single word is marked by `?` and its value by `:` on a line of
its own. A thing that is met again has an anchor where it is written, and after
that only the anchor is named.
-/
import ProgramTree.Doc.Yaml.Pen
import ProgramTree.Doc.Yaml.Tree

namespace ProgramTree.Doc.Yaml

/-- The column inside a collection, given the one outside; the outermost
collection stands at the margin. -/
def inner : Option Nat → Nat
  | none => 0
  | some n => n + 2

/-- The column for the further lines of a text. -/
def foldColumn : Option Nat → Nat
  | none => 2
  | some n => n + 2

/-- The length of the anchor of a thing. -/
def anchorLength (anchored : List Value) (thing : Option Value) : Nat :=
  ((thing.bind (anchor? anchored)).map String.length).getD 0

/-- The length of a key, its tag included. -/
def keyLength (anchored : List Value) : Tree → Nat
  | .word sort s => 2 + sort.length + s.length
  | .text s => "!!str".length + s.length
  | .items thing tag _ => anchorLength anchored thing + (tag.getD "!!seq").length
  | .entries thing tag _ => anchorLength anchored thing + (tag.getD "!!map").length
  | .again thing => anchorLength anchored (some thing)

/-- Whether a key can stand on one line. -/
def onOneLine : Tree → Bool
  | .text s => !s.isEmpty && !s.toList.any isBreak
  | .word .. | .again _ | .items _ _ [] | .entries _ _ [] => true
  | _ => false

/-- Whether a key is short enough and on one line, so that its value may follow
on the same line. -/
def isSimpleKey (anchored : List Value) (key : Tree) : Bool :=
  keyLength anchored key < 128 && onOneLine key

/-- Writes the anchor and the tag before a list or a dictionary. -/
def header (anchored : List Value) (thing : Option Value) (tag : Option String) (p : Pen) : Pen :=
  let p := match thing.bind (anchor? anchored) with
    | some name => p.sign ("&" ++ name) true false false
    | none => p
  match tag with
  | some t => p.sign t true false false
  | none => p

/-- Writes two signs with nothing between them. -/
def emptyPair (opening closing : String) (p : Pen) : Pen :=
  (p.sign opening true true false).sign closing false false false

mutual

/-- Writes a tree. `column` is where the collection around it stands, `inDict`
tells whether it is a key or a value of a dictionary, and `isKey` whether it is a
key on one line. -/
def render (anchored : List Value) (column : Option Nat) (inDict isKey : Bool) :
    Tree → Pen → Pen
  | .word _ s, p => plain (!isKey) (foldColumn column) s p
  | .text s, p => scalar isKey (foldColumn column) s p
  | .again thing, p => p.sign ("*" ++ (anchor? anchored thing).getD "") true false false
  | .items thing tag [], p => emptyPair "[" "]" (header anchored thing tag p)
  | .items thing tag (t :: rest), p =>
    let p := header anchored thing tag p
    let flush := inDict && !p.indenting
    let here := if flush then column.getD 0 else inner column
    renderItems anchored here (t :: rest) p
  | .entries thing tag [], p => emptyPair "\x7b" "\x7d" (header anchored thing tag p)
  | .entries thing tag (e :: rest), p =>
    renderEntries anchored (inner column) (e :: rest) (header anchored thing tag p)

/-- Writes the items of a list, each on a line with a dash. -/
def renderItems (anchored : List Value) (here : Nat) : List Tree → Pen → Pen
  | [], p => p
  | t :: rest, p =>
    let p := (p.indent here).sign "-" true false true
    renderItems anchored here rest (render anchored (some here) false false t p)

/-- Writes the entries of a dictionary, each on a line. -/
def renderEntries (anchored : List Value) (here : Nat) : List (Tree × Tree) → Pen → Pen
  | [], p => p
  | (k, t) :: rest, p =>
    let p := p.indent here
    let p :=
      if isSimpleKey anchored k then
        (render anchored (some here) true true k p).sign ":" false false false
      else
        let p := render anchored (some here) true false k (p.sign "?" true false true)
        (p.indent here).sign ":" true false true
    renderEntries anchored here rest (render anchored (some here) true false t p)

end

/-- Whether a tree is written as one word without quotes. -/
def isWord : Tree → Bool
  | .word .. => true
  | .text s => styleOf false s == .plain
  | _ => false

/-- A tree as a page. A single word is followed by the mark of the end. -/
def page (t : Tree) : String :=
  let p := (render t.anchored none false false t Pen.start).indent 0
  if isWord t then p.page ++ "...\n" else p.page

end ProgramTree.Doc.Yaml

namespace ProgramTree.Doc

/-- A document in YAML; the things that it holds stand in a store. -/
def yaml (s : Store) (d : Doc) : Except Fault String := do
  let (t, _) ← (Yaml.Tree.ofDoc s d).run []
  return Yaml.page t

end ProgramTree.Doc
