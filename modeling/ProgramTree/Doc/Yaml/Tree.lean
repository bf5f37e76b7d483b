/-
YAML trees: what a document looks like to YAML.

A thing that a document holds twice is written once: where it is met first it
carries an anchor, and where it is met again the anchor stands for it. Only what
lives in a store and the members of enumerations can be met again; the parts of
an outline are new each time. What is no plain data is written with its fields,
under a tag that tells its form, so the tree of a document can reach all of the
store.
-/
import ProgramTree.Doc
import ProgramTree.Double.Text
import ProgramTree.Store
import ProgramTree.Text.Blank

namespace ProgramTree.Doc.Yaml

/-- What is written. A list or a dictionary may stand for a thing and may have a
tag. -/
inductive Tree
  /-- A number, a truth value or nothing, with the name of its sort. -/
  | word (sort text : String)
  | text (s : String)
  | items (thing : Option Value) (tag : Option String) (items : List Tree)
  | entries (thing : Option Value) (tag : Option String) (entries : List (Tree × Tree))
  /-- A thing that was met before. -/
  | again (thing : Value)

/-- The text of a number: always with a point. -/
def numberText (x : Double) : String :=
  let s := x.textWith { Double.standard with infinity := ".inf", nan := ".nan" }
  let cs := s.toList
  if cs.contains '.' || !cs.contains 'e' then s
  else String.ofList (cs.takeWhile (· != 'e')) ++ ".0"
    ++ String.ofList (cs.dropWhile (· != 'e'))

namespace Tree

/-! ## Words -/

/-- Nothing. -/
def null : Tree :=
  .word "null" "null"

/-- A truth value. -/
def bool (b : Bool) : Tree :=
  .word "bool" (if b then "true" else "false")

/-- A whole number. -/
def int (n : Int) : Tree :=
  .word "int" (toString n)

/-- A number. -/
def float (x : Double) : Tree :=
  .word "float" (numberText x)

/-! ## Tags -/

/-- The tag of tuples. -/
def tupleTag : String := "!!python/tuple"

/-- The tag of sets. -/
def setTag : String := "!!set"

/-- The tag of the nodes of a form. -/
def formTag (form : Form) : String :=
  "!!python/object:" ++ form.path

/-- The tag of the members of an enumeration. -/
def enumerationTag (e : Enumeration) : String :=
  "!!python/object/apply:" ++ e.path

/-! ## Trees of values -/

/-- Making a tree, with the things that were met before. -/
abbrev Meeting := StateT (List Value) (Except Fault)

/-- Meets a thing: at the first time its tree is made. -/
def meet (thing : Value) (first : Meeting Tree) : Meeting Tree := do
  if (← get).contains thing then return .again thing
  else
    modify fun met => thing :: met
    first

/-- The trees of keys and values. -/
def pairs {α β : Type} (key : α → Meeting Tree) (value : β → Meeting Tree) :
    List (α × β) → Meeting (List (Tree × Tree))
  | [] => pure []
  | (k, v) :: rest => do
    let kt ← key k
    let vt ← value v
    return (kt, vt) :: (← pairs key value rest)

/-- The tree of a cell, given the trees of the values in it. -/
def ofCell (inner : Value → Meeting Tree) (thing : Value) : Cell → Meeting Tree
  | .list xs => do return .items (some thing) none (← xs.mapM inner)
  | .tuple [] => return .items none (some tupleTag) []
  | .tuple xs => do return .items (some thing) (some tupleTag) (← xs.mapM inner)
  | .set xs => do
    let es ← pairs inner (fun _ => return null) (xs.map fun x => (x, ()))
    return .entries (some thing) (some setTag) es
  | .dict es => do return .entries (some thing) none (← pairs inner inner es)
  | .node n => do
    if n.isSorted then throw .sortedContainer
    let es ← pairs (fun f : Field => return .text f.key) inner n.fields
    return .entries (some thing) (some (formTag n.form)) es

/-- The tree of a value. A value inside another one that was not met before stands in
another cell, so that fuel for each cell is enough. -/
def ofValue (s : Store) : Nat → Value → Meeting Tree
  | 0, _ => throw .tooDeep
  | fuel + 1, v =>
    match v with
    | .none => return null
    | .bool b => return bool b
    | .int n => return int n
    | .float x => return float x
    | .text t => return .text t
    | .member m =>
      meet v (return .items (some v) (some (enumerationTag m.enumeration)) [int m.code])
    | .ref a =>
      match s.cell? a with
      | none => throw .dangling
      | some (.tuple []) => ofCell (ofValue s fuel) v (.tuple [])
      | some c => meet v (ofCell (ofValue s fuel) v c)

/-- Fuel for all cells of a store. -/
def fuelFor (s : Store) : Nat :=
  s.cells.size + 2

/-! ## Trees of documents -/

mutual

/-- The tree of a document. -/
def ofDoc (s : Store) : Doc → Meeting Tree
  | .null => return null
  | .bool b => return bool b
  | .int n => return int n
  | .float x => return float x
  | .text t => return .text t
  | .list ds => do return .items none none (← ofDocs s ds)
  | .tuple ds => do return .items none (some tupleTag) (← ofDocs s ds)
  | .set ds => do return .entries none (some setTag) ((← ofDocs s ds).map fun t => (t, null))
  | .dict es => do return .entries none none (← ofEntries s es)
  | .held a _ => ofValue s (fuelFor s) (.ref a)
  | .loop a _ => ofValue s (fuelFor s) (.ref a)
  | .foreign thing => ofValue s (fuelFor s) thing.value

/-- The trees of several documents. -/
def ofDocs (s : Store) : List Doc → Meeting (List Tree)
  | [] => pure []
  | d :: rest => do
    let t ← ofDoc s d
    return t :: (← ofDocs s rest)

/-- The trees of the entries of a dictionary. -/
def ofEntries (s : Store) : List (Doc × Doc) → Meeting (List (Tree × Tree))
  | [] => pure []
  | (k, d) :: rest => do
    let kt ← ofDoc s k
    let dt ← ofDoc s d
    return (kt, dt) :: (← ofEntries s rest)

end

/-! ## Anchors -/

mutual

/-- The things that a tree meets again, in the order in which it does. -/
def metAgain : Tree → List Value
  | .word .. | .text _ => []
  | .items _ _ ts => metAgainAll ts
  | .entries _ _ es => metAgainEntries es
  | .again thing => [thing]

/-- The same for several trees. -/
def metAgainAll : List Tree → List Value
  | [] => []
  | t :: rest => metAgain t ++ metAgainAll rest

/-- The same for the entries of a dictionary. -/
def metAgainEntries : List (Tree × Tree) → List Value
  | [] => []
  | (k, t) :: rest => metAgain k ++ metAgain t ++ metAgainEntries rest

end

/-- The things of a tree that have an anchor, each once. -/
def anchored (t : Tree) : List Value :=
  t.metAgain.eraseDups

end Tree

/-- The anchor of a thing, if it has one: they are counted from one. -/
def anchor? (anchored : List Value) (thing : Value) : Option String :=
  (anchored.idxOf? thing).map fun i =>
    let digits := toString (i + 1)
    "id" ++ Text.repeated "0" (3 - digits.length) ++ digits

end ProgramTree.Doc.Yaml
