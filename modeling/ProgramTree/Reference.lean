/-
Reference pages: one page for each source file, and a navigation over all pages.

A path is the list of its components. The page of a source file lies where the file
lies in its package, under the same name with another ending; the file that stands
for a whole folder gets the folder's index page, and a file whose name starts with an
underscore gets none.
-/
import ProgramTree.Fault

namespace ProgramTree.Reference

/-! ## Paths -/

/-- A path: its components from the outside in. -/
abbrev Path := List String

namespace Path

/-- The components that a text names. -/
def ofText (s : String) : Path :=
  (s.splitToList (· == '/')).filter fun part => !part.isEmpty && part != "."

/-- A path as text. -/
def text (p : Path) : String :=
  String.intercalate "/" p

/-- The path itself and all folders on the way to it. -/
def prefixes : Path → List Path
  | [] => []
  | part :: rest => [part] :: (prefixes rest).map (part :: ·)

/-- Replaces the last component. -/
def mapLast (f : String → String) : Path → Path
  | [] => []
  | [name] => [f name]
  | part :: rest => part :: mapLast f rest

/-- Whether a path comes before another or is the same: components are compared one by
one, by their characters. -/
def atMost (p q : Path) : Bool :=
  !(decide (q < p))

/-- The rest of a path below a folder. -/
def below? : Path → Path → Option Path
  | [], p => some p
  | _ :: _, [] => none
  | folder :: rest, part :: p => if folder = part then below? rest p else none

/-- A path lies below a folder exactly if the folder's components come first. -/
theorem below?_eq_some_iff (folder p rest : Path) :
    below? folder p = some rest ↔ p = folder ++ rest := by
  induction folder generalizing p with
  | nil => simp [below?, eq_comm]
  | cons f fs ih =>
    cases p with
    | nil => simp [below?]
    | cons a p =>
      by_cases h : f = a
      · subst h; simp [below?, ih]
      · simp [below?, h, Ne.symm h]

end Path

/-! ## Names of files -/

/-- The ending of source files. -/
def ending : List Char := ['.', 'p', 'y']

/-- Whether a name has the ending of source files. -/
def isSource (name : String) : Bool :=
  ending.isSuffixOf name.toList

/-- A name of a source file without its ending; a name that is all ending stays. -/
def stem (name : String) : String :=
  if name.toList.length ≤ ending.length then name
  else String.ofList (name.toList.take (name.toList.length - ending.length))

/-- The name of the page of a source file. -/
def pageName (name : String) : String :=
  stem name ++ ".md"

/-- The stem of the file that stands for its folder. -/
def folderStem : String := "__init__"

/-- The name of the page of a folder. -/
def indexName : String := "index.md"

/-- Whether a name starts with an underscore. -/
def isHidden (name : String) : Bool :=
  name.toList.head? == some '_'

/-! ## Pages -/

/-- The folder of all sources. -/
def sourceFolder : Path := ["src"]

/-- The folder of the package among the sources. -/
def packageFolder : Path := ["astx"]

/-- The folder of all pages. -/
def pageFolder : Path := ["api"]

/-- The page of a source file. -/
structure Page where
  /-- The parts of the module's full name. -/
  parts : List String
  /-- Where the page lies among all pages. -/
  place : Path
  /-- The source file among all sources. -/
  source : Path
deriving DecidableEq, Repr

namespace Page

/-- The page of a source file of the package, if it gets one. -/
def ofPackageFile? (file : Path) : Option Page :=
  let parts := packageFolder ++ file.mapLast stem
  let last := parts.getLastD ""
  if last = folderStem then
    some ⟨parts.dropLast, file.mapLast fun _ => indexName, packageFolder ++ file⟩
  else if isHidden last then none
  else some ⟨parts, file.mapLast pageName, packageFolder ++ file⟩

/-- The path that the page is written to. -/
def path (p : Page) : Path :=
  pageFolder ++ p.place

/-- What the page says: which module it documents. -/
def content (p : Page) : String :=
  "::: " ++ String.intercalate "." p.parts

/-- The sign of a module in the navigation. -/
def moduleSign : String :=
  "<code class=\"doc-symbol doc-symbol-nav doc-symbol-module\"></code>"

/-- The key of the page in the navigation. -/
def key (p : Page) : List String :=
  p.parts.map fun part => moduleSign ++ " " ++ part

/-- Where the source can be edited, as seen from the pages. -/
def editPath (p : Page) : Path :=
  ".." :: sourceFolder ++ p.source

end Page

/-! ## The whole reference -/

/-- A written file: its path and its text. -/
structure Written where
  path : String
  text : String
deriving DecidableEq, Repr

/-- The reference: the pages made, the files written, and the fault that ended the work
early, if one did. -/
structure Site where
  pages : List Page
  written : List Written
  fault : Option Fault
deriving DecidableEq, Repr

/-- The source files below the source folder, each once and in order, as paths below that
folder. A folder with the ending of source files counts as one. -/
def sourceFiles (files : List String) : List Path :=
  let paths := files.flatMap fun f => (Path.ofText f).prefixes
  let sources := paths.filterMap fun p => (Path.below? sourceFolder p).filter fun q =>
    q.getLast?.any isSource
  sources.eraseDups.mergeSort Path.atMost

/-- The complaint about a source file outside the package. -/
def outside (file : Path) : Fault :=
  .outsideSources (Path.text ("ROOT" :: sourceFolder ++ file))
    (Path.text ("ROOT" :: sourceFolder ++ packageFolder))

/-- The pages of source files in order, up to the first file outside the package. -/
def pagesOf : List Path → List Page × Option Fault
  | [] => ([], none)
  | file :: rest =>
    match Path.below? packageFolder file with
    | none => ([], some (outside file))
    | some inner =>
      let (pages, fault) := pagesOf rest
      ((Page.ofPackageFile? inner).toList ++ pages, fault)

/-- The navigation over pages: a line for each. -/
def summary (pages : List Page) : Written :=
  ⟨Path.text (pageFolder ++ ["SUMMARY.md"]),
    String.join (pages.map fun p => "- " ++ p.place.text ++ "\n")⟩

/-- The reference of a tree that holds these files. -/
def generate (files : List String) : Site :=
  let (pages, fault) := pagesOf (sourceFiles files)
  let written := pages.map fun p => ⟨p.path.text, p.content⟩
  match fault with
  | none => ⟨pages, written ++ [summary pages], none⟩
  | some e => ⟨pages, written, some e⟩

end ProgramTree.Reference
