/-
Pages of the reference.

`pages_told_apart` says which files get a page and when two of them get the same one: only the
file that stands for a folder and a module called `index` in that folder do. In the navigation
two pages have one key only if a folder and a module beside it have the same name.

A file is given by the names on the way to it. Its path as text is taken apart again at the
slashes, which is why no name may hold one; that no name of a folder holds a point keeps
folders from being taken for source files.
-/
import Mathlib
import ProgramTree.Reference

namespace ProgramTree.Reference

/-! ## Paths as texts -/

namespace Path

/-- A component that a text can name. -/
def IsPart (part : String) : Prop :=
  part ≠ "" ∧ part ≠ "." ∧ '/' ∉ part.toList

/-- A path can be read back from its text. -/
theorem ofText_text {p : Path} (hne : p ≠ []) (h : ∀ part ∈ p, IsPart part) :
    ofText p.text = p := by
  have hsplit : List.splitOn '/' (List.intercalate ['/'] (p.map String.toList)) =
      p.map String.toList := by
    refine List.splitOn_intercalate '/' (fun l hl => ?_) (by simpa using hne)
    obtain ⟨part, hpart, rfl⟩ := List.mem_map.mp hl
    exact (h part hpart).2.2
  have hlist : p.text.splitToList (· == '/') = p := by
    rw [String.splitToList_of_valid, text, String.toList_intercalate]
    exact (congrArg (List.map String.ofList) hsplit).trans (by simp)
  rw [ofText, hlist, List.filter_eq_self]
  intro part hpart
  simp [(h part hpart).1, (h part hpart).2.1]

theorem mem_prefixes {p q : Path} : q ∈ prefixes p ↔ q ≠ [] ∧ q <+: p := by
  induction p generalizing q with
  | nil => simp [prefixes]
  | cons part rest ih =>
    cases q with
    | nil => simp [prefixes]
    | cons a q =>
      rw [prefixes, List.mem_cons, List.mem_map, List.cons_prefix_cons]
      constructor
      · rintro (h | ⟨r, hr, h⟩)
        · cases h
          exact ⟨List.cons_ne_nil _ _, rfl, List.nil_prefix⟩
        · cases h
          exact ⟨List.cons_ne_nil _ _, rfl, (ih.mp hr).2⟩
      · rintro ⟨-, rfl, hq⟩
        cases q with
        | nil => exact .inl rfl
        | cons b q => exact .inr ⟨_, ih.mpr ⟨List.cons_ne_nil _ _, hq⟩, rfl⟩

theorem mapLast_concat (f : String → String) (p : Path) (name : String) :
    mapLast f (p ++ [name]) = p ++ [f name] := by
  induction p with
  | nil => rfl
  | cons part rest ih =>
    cases rest with
    | nil => rfl
    | cons a rest => exact congrArg (part :: ·) ih

end Path

/-! ## Files -/

/-- A name of a folder or of a module. Every identifier is one. -/
structure Name where
  text : String
  ne_empty : text ≠ ""
  no_point : '.' ∉ text.toList
  no_slash : '/' ∉ text.toList
deriving DecidableEq

theorem Name.isPart (n : Name) : Path.IsPart n.text :=
  ⟨n.ne_empty, fun h => n.no_point (by simp [h]), n.no_slash⟩

theorem Name.text_inj {m n : Name} : m.text = n.text ↔ m = n := by
  cases m
  cases n
  simp

theorem folders_inj {ms ns : List Name} : ms.map Name.text = ns.map Name.text ↔ ms = ns :=
  (List.map_injective_iff.mpr fun _ _ => Name.text_inj.mp).eq_iff

/-- A source file of the package: the folders on the way to it, and the name of its module. -/
structure SourceFile where
  folders : List Name
  name : Name
deriving DecidableEq

namespace SourceFile

/-- The path of a file in the package. -/
def inner (f : SourceFile) : Path :=
  f.folders.map Name.text ++ [f.name.text ++ ".py"]

/-- The path of a file as text. -/
def text (f : SourceFile) : String :=
  Path.text (sourceFolder ++ (packageFolder ++ f.inner))

/-- Whether a file stands for its folder. -/
def isFolder (f : SourceFile) : Bool :=
  f.name.text == folderStem

/-- Whether a file gets a page: its name starts with no underscore, or it stands for its
folder. -/
def isDocumented (f : SourceFile) : Bool :=
  f.isFolder || !isHidden f.name.text

/-- The page of a file: that of its folder, or one of its own. -/
def page (f : SourceFile) : Page :=
  let above := f.folders.map Name.text
  if f.isFolder then ⟨packageFolder ++ above, above ++ [indexName], packageFolder ++ f.inner⟩
  else ⟨packageFolder ++ (above ++ [f.name.text]), above ++ [f.name.text ++ ".md"],
    packageFolder ++ f.inner⟩

/-- A file stands for its folder and another one is called like the index of that folder. -/
def IsIndexBeside (f g : SourceFile) : Prop :=
  f.isFolder = true ∧ g.name.text = "index" ∧ f.folders = g.folders

/-- A file stands for a folder and another one, of the same name, is beside that folder. -/
def IsFolderBeside (f g : SourceFile) : Prop :=
  f.isFolder = true ∧ g.isFolder = false ∧ f.folders = g.folders ++ [g.name]

variable {f g : SourceFile}

theorem eq_of_names (hfolders : f.folders = g.folders) (hname : f.name.text = g.name.text) :
    f = g := by
  cases f
  cases g
  exact congr (congrArg mk hfolders) (Name.text_inj.mp hname)

theorem inner_injective : Function.Injective inner := by
  intro f g h
  obtain ⟨hfolders, hname⟩ := List.append_inj' h rfl
  exact eq_of_names (folders_inj.mp hfolders)
    ((String.append_left_inj _).mp (List.singleton_inj.mp hname))

theorem stem_name (n : Name) : stem (n.text ++ ".py") = n.text := by
  have hpos : 0 < n.text.toList.length :=
    List.length_pos_iff.mpr (by simpa using n.ne_empty)
  have hlong : ¬ (n.text ++ ".py").toList.length ≤ ending.length := by
    rw [String.toList_append, List.length_append]
    have hending : ".py".toList.length = ending.length := rfl
    omega
  rw [stem, if_neg hlong]
  simp [ending]

/-- A file is given the page of its folder or its own, unless it is hidden. -/
theorem ofPackageFile?_inner (f : SourceFile) :
    Page.ofPackageFile? f.inner = if f.isDocumented then some f.page else none := by
  have hstem : f.inner.mapLast stem = f.folders.map Name.text ++ [f.name.text] := by
    rw [inner, Path.mapLast_concat, stem_name]
  have hlast : (packageFolder ++ (f.folders.map Name.text ++ [f.name.text])).getLastD "" =
      f.name.text := by
    rw [← List.append_assoc, List.getLastD_concat]
  rw [Page.ofPackageFile?, hstem, hlast]
  by_cases hfolder : f.name.text = folderStem
  · simp [hfolder, isDocumented, isFolder, page, inner, Path.mapLast_concat,
      ← List.append_assoc]
  · cases hhidden : isHidden f.name.text with
    | true => simp [hfolder, hhidden, isDocumented, isFolder]
    | false =>
      simp [hfolder, hhidden, isDocumented, isFolder, page, inner, Path.mapLast_concat, pageName,
        stem_name]

/-! ## Which files are found -/

theorem not_isSource (n : Name) : isSource n.text = false := by
  refine Bool.eq_false_iff.mpr fun h => n.no_point ?_
  exact (List.isSuffixOf_iff_suffix.mp h).subset (by simp [ending])

theorem isSource_py (s : String) : isSource (s ++ ".py") = true := by
  rw [isSource, List.isSuffixOf_iff_suffix, String.toList_append]
  exact List.suffix_append ..

theorem ofText_text (f : SourceFile) :
    Path.ofText f.text = sourceFolder ++ (packageFolder ++ f.inner) := by
  refine Path.ofText_text (by simp [sourceFolder]) fun part hpart => ?_
  simp only [sourceFolder, packageFolder, inner, List.cons_append, List.nil_append,
    List.mem_cons, List.mem_append, List.mem_map, List.not_mem_nil, or_false] at hpart
  rcases hpart with rfl | rfl | ⟨n, -, rfl⟩ | rfl
  · simp [Path.IsPart]
  · simp [Path.IsPart]
  · exact n.isPart
  · refine ⟨by simp, fun h => ?_, by simpa using f.name.no_slash⟩
    simpa using congrArg (fun s => s.toList.length) h

/-- On the way to a file only the file itself has the ending of source files. -/
theorem isSource_prefix {q : Path} (hq : sourceFolder ++ q <+: sourceFolder ++
    (packageFolder ++ f.inner)) : q.getLast?.any isSource = true ↔ q = packageFolder ++ f.inner := by
  rw [List.prefix_append_right_inj, inner, ← List.append_assoc, List.prefix_concat_iff] at hq
  constructor
  · intro h
    rcases hq with rfl | hq
    · rw [inner, List.append_assoc]
    · obtain ⟨last, hlast, hsource⟩ := (Option.any_eq_true _ _).mp h
      have hmem := hq.subset (List.mem_of_getLast? hlast)
      rw [packageFolder, List.singleton_append, List.mem_cons, List.mem_map] at hmem
      rcases hmem with rfl | ⟨n, -, rfl⟩
      · exact absurd hsource (by decide)
      · rw [not_isSource] at hsource
        cases hsource
  · rintro rfl
    rw [inner, ← List.append_assoc, List.getLast?_concat]
    exact isSource_py _

end SourceFile

/-- The source files of a tree are the files that it holds. -/
theorem mem_sourceFiles {files : List SourceFile} {q : Path} :
    q ∈ sourceFiles (files.map SourceFile.text) ↔ ∃ f ∈ files, packageFolder ++ f.inner = q := by
  simp only [sourceFiles, List.mem_mergeSort, List.mem_eraseDups, List.mem_filterMap,
    List.mem_flatMap, List.mem_map, Option.filter_eq_some_iff, Path.below?_eq_some_iff]
  constructor
  · rintro ⟨_, ⟨_, ⟨f, hf, rfl⟩, hp⟩, rfl, hsource⟩
    rw [SourceFile.ofText_text, Path.mem_prefixes] at hp
    exact ⟨f, hf, ((SourceFile.isSource_prefix hp.2).mp hsource).symm⟩
  · rintro ⟨f, hf, rfl⟩
    have hp : sourceFolder ++ (packageFolder ++ f.inner) ∈ (Path.ofText f.text).prefixes := by
      rw [SourceFile.ofText_text, Path.mem_prefixes]
      exact ⟨by simp [sourceFolder], List.prefix_rfl⟩
    exact ⟨_, ⟨_, ⟨f, hf, rfl⟩, hp⟩, rfl, (SourceFile.isSource_prefix List.prefix_rfl).mpr rfl⟩

theorem nodup_eraseDups (l : List Path) : l.eraseDups.Nodup := by
  induction hn : l.length using Nat.strong_induction_on generalizing l with
  | _ n ih =>
    cases l with
    | nil => simp
    | cons p rest =>
      rw [List.eraseDups_cons, List.nodup_cons, List.mem_eraseDups]
      refine ⟨by simp, ih _ ?_ _ rfl⟩
      exact hn ▸ Nat.lt_succ_of_le (List.length_filter_le ..)

/-- The files are found each once, in some order. -/
theorem exists_order (files : List SourceFile) : ∃ found : List SourceFile, found.Nodup ∧
    (∀ f, f ∈ found ↔ f ∈ files) ∧
    sourceFiles (files.map SourceFile.text) = found.map fun f => packageFolder ++ f.inner := by
  have hinj : Function.Injective fun f : SourceFile => packageFolder ++ f.inner :=
    fun f g h => SourceFile.inner_injective (List.append_cancel_left h)
  have hrange : sourceFiles (files.map SourceFile.text) ∈
      Set.range (List.map fun f : SourceFile => packageFolder ++ f.inner) := by
    rw [Set.range_list_map]
    intro q hq
    obtain ⟨f, -, hf⟩ := mem_sourceFiles.mp hq
    exact ⟨f, hf⟩
  obtain ⟨found, hfound⟩ := hrange
  refine ⟨found, ?_, fun f => ?_, hfound.symm⟩
  · refine List.Nodup.of_map (fun f : SourceFile => packageFolder ++ f.inner) ?_
    rw [hfound]
    exact (List.mergeSort_perm ..).nodup_iff.mpr (nodup_eraseDups _)
  · rw [← List.mem_map_of_injective hinj, hfound, mem_sourceFiles]
    constructor
    · rintro ⟨g, hg, h⟩
      exact hinj h ▸ hg
    · exact fun hf => ⟨f, hf, rfl⟩

theorem pagesOf_map (found : List SourceFile) :
    pagesOf (found.map fun f => packageFolder ++ f.inner) =
      ((found.filter SourceFile.isDocumented).map SourceFile.page, none) := by
  induction found with
  | nil => rfl
  | cons f rest ih =>
    have hbelow : Path.below? packageFolder (packageFolder ++ f.inner) = some f.inner :=
      (Path.below?_eq_some_iff ..).mpr rfl
    rw [List.map_cons, pagesOf, hbelow, ih, List.filter_cons]
    simp only [SourceFile.ofPackageFile?_inner]
    split <;> rfl

/-! ## Pages and keys of two files -/

namespace SourceFile

variable {f g : SourceFile}

theorem isPart_md (n : Name) : Path.IsPart (n.text ++ ".md") := by
  refine ⟨by simp, fun h => ?_, by simpa using n.no_slash⟩
  simpa using congrArg (fun s => s.toList.length) h

/-- Where a page lies, by the name of its last component. -/
theorem place_page (f : SourceFile) : f.page.place = f.folders.map Name.text ++
    [(if f.isFolder then "index" else f.name.text) ++ ".md"] := by
  rw [page]
  split <;> rfl

theorem path_text_inj : f.page.path.text = g.page.path.text ↔ f.page.place = g.page.place := by
  have hread (f : SourceFile) : Path.ofText f.page.path.text = pageFolder ++ f.page.place := by
    refine Path.ofText_text (by simp [Page.path, pageFolder]) fun part hpart => ?_
    rw [Page.path, place_page, pageFolder, List.singleton_append, List.mem_cons,
      List.mem_append, List.mem_map, List.mem_singleton] at hpart
    rcases hpart with rfl | ⟨n, -, rfl⟩ | rfl
    · simp [Path.IsPart]
    · exact n.isPart
    · split
      · simp [Path.IsPart]
      · exact isPart_md _
  constructor
  · intro h
    have := congrArg Path.ofText h
    rw [hread, hread] at this
    exact List.append_cancel_left this
  · intro h
    rw [Page.path, h, Page.path]

theorem place_eq_iff (hne : f ≠ g) :
    f.page.place = g.page.place ↔ f.IsIndexBeside g ∨ g.IsIndexBeside f := by
  have hplace : f.page.place = g.page.place ↔ f.folders = g.folders ∧
      (if f.isFolder then "index" else f.name.text) =
        if g.isFolder then "index" else g.name.text := by
    simp [place_page, folders_inj]
  rw [hplace, IsIndexBeside, IsIndexBeside]
  cases hf : f.isFolder with
  | true =>
    have hf' : f.name.text = folderStem := beq_iff_eq.mp hf
    cases hg : g.isFolder with
    | true =>
      have hg' : g.name.text = folderStem := beq_iff_eq.mp hg
      have hdiffer : f.folders ≠ g.folders := fun h => hne (eq_of_names h (hf'.trans hg'.symm))
      simp [hdiffer, Ne.symm hdiffer]
    | false => simp [hf', folderStem, eq_comm, and_comm]
  | false =>
    cases hg : g.isFolder with
    | true =>
      have hg' : g.name.text = folderStem := beq_iff_eq.mp hg
      simp [hg', folderStem, eq_comm, and_comm]
    | false =>
      simp only [Bool.false_eq_true, if_false, false_and, or_false, iff_false]
      exact fun h => hne (eq_of_names h.1 h.2)

theorem key_eq_iff (hne : f ≠ g) :
    f.page.key = g.page.key ↔ f.IsFolderBeside g ∨ g.IsFolderBeside f := by
  have hkey : f.page.key = g.page.key ↔ f.page.parts = g.page.parts :=
    (List.map_injective_iff.mpr fun _ _ => (String.append_right_inj _).mp).eq_iff
  rw [hkey, IsFolderBeside, IsFolderBeside, page, page]
  cases hf : f.isFolder with
  | true =>
    cases hg : g.isFolder with
    | true =>
      have hname : f.name.text = g.name.text := (beq_iff_eq.mp hf).trans (beq_iff_eq.mp hg).symm
      have hdiffer : f.folders ≠ g.folders := fun h => hne (eq_of_names h hname)
      simp [folders_inj, hdiffer]
    | false =>
      have hparts : f.folders.map Name.text = (g.folders ++ [g.name]).map Name.text ↔ _ :=
        folders_inj
      simpa using hparts
  | false =>
    cases hg : g.isFolder with
    | true =>
      have hparts : (f.folders ++ [f.name]).map Name.text = g.folders.map Name.text ↔ _ :=
        folders_inj
      simpa [eq_comm] using hparts
    | false =>
      have hdiffer : ¬ (f.folders = g.folders ∧ f.name.text = g.name.text) :=
        fun h => hne (eq_of_names h.1 h.2)
      simpa [folders_inj] using hdiffer

end SourceFile

end ProgramTree.Reference
