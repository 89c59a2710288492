import JsxOrigin.Proofs.Project.SourceFiles
import JsxOrigin.Proofs.Text.Order
import Mathlib.Data.List.Nodup
import Mathlib.Data.List.TakeDrop

/-!
# Which files are found

What a scan looks at is a list of files, and this says which one. **The laws**: the list holds
exactly the files below the root that have one of the endings and stand in no excluded directory
(`FileSystem.mem_sourceFiles_iff`), and it is strictly increasing in the order of the names, each
compared by the numbers of its code points (`FileSystem.sourceFiles_increasing`), so no file is
listed twice.

A file on the list may still be in no known language: an ending alone is a name without a suffix
(`Path.suffix_append`), and no other name on the list is (`Settings.supports_of_fileEnding`).
-/

namespace JsxOrigin

/-! ## The order of paths -/

theorem Text.map_val_lt {s t : Text} (before : Text.le s t = true) (differs : s ≠ t) :
    s.map CodePoint.val < t.map CodePoint.val := by
  induction s generalizing t with
  | nil =>
    cases t with
    | nil => contradiction
    | cons b t => exact List.nil_lt_cons _ _
  | cons a s ih =>
    cases t with
    | nil => cases before
    | cons b t =>
      rw [List.map_cons, List.map_cons, List.cons_lt_cons_iff]
      rcases Text.le_cons_cons.mp before with less | ⟨same, rest⟩
      · exact .inl less
      · refine .inr ⟨same, ih rest ?_⟩
        rintro rfl
        exact differs (by rw [CodePoint.val_injective same])

namespace Path

/-- The numbers of the code points of names. -/
def numbers (names : List Text) : List (List Nat) := names.map (·.map CodePoint.val)

theorem namesLe_cons_cons {a b : Text} {s t : List Text} :
    namesLe (a :: s) (b :: t) = true ↔
      a ≠ b ∧ Text.le a b = true ∨ a = b ∧ namesLe s t = true := by
  rw [namesLe]
  split <;> simp_all

theorem numbers_lt {s t : List Text} (before : namesLe s t = true) (differs : s ≠ t) :
    numbers s < numbers t := by
  induction s generalizing t with
  | nil =>
    cases t with
    | nil => contradiction
    | cons b t => exact List.nil_lt_cons _ _
  | cons a s ih =>
    cases t with
    | nil => cases before
    | cons b t =>
      rw [numbers, List.map_cons, numbers, List.map_cons, List.cons_lt_cons_iff]
      rcases namesLe_cons_cons.mp before with ⟨other, less⟩ | ⟨rfl, rest⟩
      · exact .inl (Text.map_val_lt less other)
      · refine .inr ⟨rfl, ih rest ?_⟩
        rintro rfl
        exact differs rfl

theorem namesLe_trans {s t u : List Text} (first : namesLe s t = true)
    (second : namesLe t u = true) : namesLe s u = true := by
  induction s generalizing t u with
  | nil => rfl
  | cons a s ih =>
    cases t with
    | nil => cases first
    | cons b t =>
      cases u with
      | nil => cases second
      | cons c u =>
        rw [namesLe_cons_cons] at first second ⊢
        rcases first with ⟨other, less⟩ | ⟨rfl, rest⟩ <;>
          rcases second with ⟨other', less'⟩ | ⟨rfl, rest'⟩
        · refine .inl ⟨?_, Text.le_trans less less'⟩
          rintro rfl
          exact other (Text.le_antisymm less less')
        · exact .inl ⟨other, less⟩
        · exact .inl ⟨other', less'⟩
        · exact .inr ⟨rfl, ih rest rest'⟩

theorem namesLe_total (s t : List Text) : (namesLe s t || namesLe t s) = true := by
  induction s generalizing t with
  | nil => rfl
  | cons a s ih =>
    cases t with
    | nil => rfl
    | cons b t =>
      rw [Bool.or_eq_true, namesLe_cons_cons, namesLe_cons_cons]
      by_cases same : a = b
      · rcases Bool.or_eq_true_iff.mp (ih t) with before | after
        · exact .inl (.inr ⟨same, before⟩)
        · exact .inr (.inr ⟨same.symm, after⟩)
      · rcases Bool.or_eq_true_iff.mp (Text.le_total a b) with before | after
        · exact .inl (.inl ⟨same, before⟩)
        · exact .inr (.inl ⟨Ne.symm same, after⟩)

end Path

/-! ## The list of files -/

namespace FileSystem

/-- Whether a source file stands below a root: a file whose name has one of the endings, with no
excluded directory on the way. -/
structure IsSource (fs : FileSystem) (root : Path) (excluded names : List Text) : Prop where
  isFile : ∃ node, fs.entry? (root.names ++ names) = some (.file node)
  ending : ∃ name ending, names.getLast? = some name ∧ ending ∈ Settings.fileEndings ∧
    ending <:+ name
  outside : ∀ directory ∈ names.dropLast, directory ∉ excluded

theorem isSourceFile_iff {excluded names : List Text} :
    isSourceFile excluded names = true ↔
      (∃ name ending, names.getLast? = some name ∧ ending ∈ Settings.fileEndings ∧
        ending <:+ name) ∧ ∀ directory ∈ names.dropLast, directory ∉ excluded := by
  cases last : names.getLast? with
  | none =>
    rw [List.getLast?_eq_none_iff] at last
    simp [last, isSourceFile_nil]
  | some name => simp [isSourceFile, last, Text.endsWith]

/-- The names of a file below a place. -/
def fileBelow? (place : Place) (e : Place × Entry) : Option (List Text) :=
  e.2.node?.bind fun node => namesBelow? place (e.1, node)

theorem filesBelow_eq (fs : FileSystem) (place : Place) :
    fs.filesBelow place = fs.entries.filterMap (fileBelow? place) := by
  rw [filesBelow]
  congr 1
  funext e
  obtain ⟨p, entry⟩ := e
  cases entry <;> rfl

theorem fileBelow?_eq_some_iff {place : Place} {e : Place × Entry} {names : List Text} :
    fileBelow? place e = some names ↔ ∃ node, e = (place ++ names, .file node) := by
  obtain ⟨p, entry⟩ := e
  cases entry with
  | directory number changed => simp [fileBelow?, Entry.node?]
  | file node =>
    show namesBelow? place (p, node) = some names ↔ _
    rw [namesBelow?, Option.ite_none_right_eq_some, List.isPrefixOf_iff_prefix]
    constructor
    · rintro ⟨⟨rest, rfl⟩, same⟩
      rw [List.drop_left, Option.some.injEq] at same
      exact ⟨node, by rw [same]⟩
    · rintro ⟨node', same⟩
      cases same
      exact ⟨List.prefix_append _ _, by rw [List.drop_left]⟩

theorem mem_filesBelow_iff {fs : FileSystem} (wf : fs.WellFormed) {place : Place}
    {names : List Text} :
    names ∈ fs.filesBelow place ↔ ∃ node, fs.entry? (place ++ names) = some (.file node) := by
  rw [filesBelow_eq, List.mem_filterMap]
  constructor
  · rintro ⟨e, mem, isBelow⟩
    obtain ⟨node, rfl⟩ := fileBelow?_eq_some_iff.mp isBelow
    exact ⟨node, wf.entry?_of_mem (wf.ne_nil_of_file mem) mem⟩
  · rintro ⟨node, found⟩
    exact ⟨_, mem_entries_of_entry (ne_nil_of_file found) found,
      fileBelow?_eq_some_iff.mpr ⟨node, rfl⟩⟩

/-- **What is found**: exactly the source files below the root. -/
theorem mem_sourceFiles_iff {fs : FileSystem} (wf : fs.WellFormed) {root : Path}
    {excluded names : List Text} :
    names ∈ fs.sourceFiles root excluded ↔ fs.IsSource root excluded names := by
  rw [sourceFiles, List.mem_mergeSort, List.mem_filter, mem_filesBelow_iff wf, isSourceFile_iff]
  constructor
  · rintro ⟨isFile, ending, outside⟩
    exact ⟨isFile, ending, outside⟩
  · rintro ⟨isFile, ending, outside⟩
    exact ⟨isFile, ending, outside⟩

theorem nodup_filesBelow {fs : FileSystem} (wf : fs.WellFormed) (place : Place) :
    (fs.filesBelow place).Nodup := by
  rw [filesBelow_eq]
  refine List.pairwise_filterMap.mpr ((List.pairwise_map.mp wf.once).imp ?_)
  rintro e e' differs names isBelow _ isBelow' rfl
  obtain ⟨node, rfl⟩ := fileBelow?_eq_some_iff.mp isBelow
  obtain ⟨node', rfl⟩ := fileBelow?_eq_some_iff.mp isBelow'
  exact differs rfl

/-- **The order in which files are found**, with each file once. -/
theorem sourceFiles_increasing {fs : FileSystem} (wf : fs.WellFormed) (root : Path)
    (excluded : List Text) :
    (fs.sourceFiles root excluded).Pairwise fun a b => Path.numbers a < Path.numbers b := by
  have once : (fs.sourceFiles root excluded).Nodup :=
    (List.mergeSort_perm _ _).nodup_iff.mpr ((nodup_filesBelow wf root.names).filter _)
  have sorted := @List.pairwise_mergeSort _ Path.namesLe (fun _ _ _ => Path.namesLe_trans)
    Path.namesLe_total ((fs.filesBelow root.names).filter (isSourceFile excluded))
  exact (sorted.and once).imp fun ordered => Path.numbers_lt ordered.1 ordered.2

end FileSystem

/-! ## Suffixes -/

/-- The suffix of a name that ends in a dot and an ending without one: nothing, if that is all. -/
theorem Path.suffix_append {p : Path} {stem ending : Text}
    (last : p.names.getLast? = some (stem ++ .scalar '.' :: ending)) (some : ending ≠ [])
    (noDot : .scalar '.' ∉ ending) :
    p.suffix = if stem = [] then [] else .scalar '.' :: ending := by
  have name : p.name.reverse = ending.reverse ++ .scalar '.' :: stem.reverse := by
    simp [Path.name, last]
  have dotFree : ∀ c ∈ ending.reverse, decide (c ≠ .scalar '.') = true := by
    intro c mem
    rw [decide_eq_true_eq]
    rintro rfl
    exact noDot (List.mem_reverse.mp mem)
  have span : p.name.reverse.span (· ≠ .scalar '.') =
      (ending.reverse, .scalar '.' :: stem.reverse) := by
    rw [name, List.span_eq_takeWhile_dropWhile, List.takeWhile_append_of_pos dotFree,
      List.dropWhile_append_of_pos dotFree]
    simp
  rw [Path.suffix, span]
  by_cases alone : stem = []
  · simp [alone]
  · simp [alone, some]

/-- Whether the suffix of a file is one of those that languages have. -/
def Language.supports (p : Path) : Bool :=
  Language.endings.any fun e => Text.ofString e.1 == p.suffix

theorem Language.isSome_ofPath? (p : Path) :
    (Language.ofPath? p).isSome =
      Language.endings.any fun e => Text.ofString e.1 == Text.lower p.suffix := by
  rw [Language.ofPath?, Option.isSome_map, List.isSome_find?]

namespace Settings

theorem fileEndings_dotted {ending : Text} (mem : ending ∈ fileEndings) :
    ∃ rest, ending = .scalar '.' :: rest ∧ rest ≠ [] ∧ .scalar '.' ∉ rest := by
  have each : ∀ ending ∈ fileEndings,
      ending.head? = some (.scalar '.') ∧ ending.tail ≠ [] ∧ .scalar '.' ∉ ending.tail := by
    decide
  obtain ⟨dot, some, noDot⟩ := each ending mem
  cases ending with
  | nil => cases dot
  | cons c rest =>
    cases dot
    exact ⟨rest, rfl, some, noDot⟩

theorem suffix_of_fileEnding {p : Path} {stem ending : Text} (mem : ending ∈ fileEndings)
    (last : p.names.getLast? = some (stem ++ ending)) :
    p.suffix = if stem = [] then [] else ending := by
  obtain ⟨rest, rfl, some, noDot⟩ := fileEndings_dotted mem
  exact Path.suffix_append last some noDot

/-- Every ending that is looked for is one of a language, and lower case already. -/
theorem fileEndings_supported : ∀ ending ∈ fileEndings,
    (Language.endings.any fun e => Text.ofString e.1 == Text.lower ending) = true ∧
      (Language.endings.any fun e => Text.ofString e.1 == ending) = true := by
  decide +kernel

/-- **Files in no language.** A file with one of the endings is in a known language exactly if its
suffix is that of one, and it is not exactly if the ending is its whole name. -/
theorem supports_of_fileEnding {p : Path} {name ending : Text} (mem : ending ∈ fileEndings)
    (last : p.names.getLast? = some name) (ends : ending <:+ name) :
    (Language.ofPath? p).isSome = Language.supports p ∧
      (Language.supports p = false ↔ name ∈ fileEndings) := by
  obtain ⟨stem, rfl⟩ := ends
  have suffix := suffix_of_fileEnding mem last
  rw [Language.isSome_ofPath?, Language.supports]
  by_cases alone : stem = []
  · subst alone
    rw [suffix, if_pos rfl]
    exact ⟨rfl, ⟨fun _ => mem, fun _ => rfl⟩⟩
  · rw [suffix, if_neg alone]
    obtain ⟨small, same⟩ := fileEndings_supported ending mem
    rw [small, same]
    refine ⟨rfl, ?_⟩
    -- a name that is an ending has no suffix
    have notWhole : stem ++ ending ∉ fileEndings := by
      intro whole
      have none : p.suffix = if ([] : Text) = [] then [] else stem ++ ending :=
        suffix_of_fileEnding whole last
      rw [suffix, if_neg alone, if_pos rfl] at none
      obtain ⟨rest, dotted, -⟩ := fileEndings_dotted mem
      rw [dotted] at none
      cases none
    simp [notWhole]

end Settings

/-- The suffix of a file that is found tells whether it is in a known language. -/
theorem FileSystem.supports_of_mem_sourceFiles {fs : FileSystem} (wf : fs.WellFormed) {root : Path}
    {excluded names : List Text} (found : names ∈ fs.sourceFiles root excluded) :
    (Language.ofPath? (Scan.absolute root names)).isSome =
        Language.supports (Scan.absolute root names) ∧
      (Language.supports (Scan.absolute root names) = false ↔
        ∃ ending ∈ Settings.fileEndings, names.getLast? = some ending) := by
  obtain ⟨name, ending, last, mem, ends⟩ := ((mem_sourceFiles_iff wf).mp found).ending
  have lastOfAll : (Scan.absolute root names).names.getLast? = some name := by
    rw [Scan.absolute, List.getLast?_append, last]
    rfl
  obtain ⟨language, whole⟩ := Settings.supports_of_fileEnding mem lastOfAll ends
  refine ⟨language, whole.trans ?_⟩
  simp [last]

end JsxOrigin
