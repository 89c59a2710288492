import JsxOrigin.Project.Scan
import JsxOrigin.Proofs.Storage.Operations

/-!
# Source files

What a scan finds depends only on the files that are no stores, each with its place, in the order
in which they are listed (`FileSystem.plainFiles`). Opening and writing a store leaves that list
alone, so a scan sees the same source files and the same contents whether or not it uses one.

**The law** (`FileSystem.sourceFiles_stand`): each source file that is found is a file with data,
and its path leads there. The data can be read unless the file is sealed.
-/

namespace JsxOrigin

namespace FileSystem

/-! ## Plain files -/

/-- The file of an entry, unless its name is that of a store. -/
def plainFile? (e : Place × Entry) : Option (Place × FileNode) :=
  if e.1.getLast? = some storeName then none else e.2.node?.map (e.1, ·)

/-- The files that are not named like a store, with their places. -/
def plainFiles (fs : FileSystem) : List (Place × FileNode) := fs.entries.filterMap plainFile?

theorem mem_plainFiles {fs : FileSystem} {place : Place} {node : FileNode} :
    (place, node) ∈ fs.plainFiles ↔
      (place, .file node) ∈ fs.entries ∧ place.getLast? ≠ some storeName := by
  simp only [plainFiles, List.mem_filterMap, plainFile?]
  constructor
  · rintro ⟨⟨p, e⟩, mem, isPlain⟩
    split at isPlain
    · cases isPlain
    · rename_i notStore
      cases e with
      | directory number changed => cases isPlain
      | file node =>
        cases isPlain
        exact ⟨mem, notStore⟩
  · rintro ⟨mem, notStore⟩
    exact ⟨_, mem, by rw [if_neg notStore]; rfl⟩

/-- The kind of a directory or of a file that is named like a store. -/
def PutsAside (place : Place) (entry : Entry) : Prop :=
  PutsDirectory place entry ∨ place.getLast? = some storeName

theorem plainFile?_of_aside {place : Place} {entry : Entry} (aside : PutsAside place entry) :
    plainFile? (place, entry) = none := by
  unfold plainFile?
  rcases aside with directory | named
  · rw [show entry.node? = none from directory]
    split <;> rfl
  · rw [if_pos named]

theorem plainFiles_put_root (fs : FileSystem) (entry : Entry) :
    (fs.put [] entry).plainFiles = fs.plainFiles := rfl

theorem filterMap_set {place : Place} {entry : Entry} {entries : Table Place Entry}
    (new : plainFile? (place, entry) = none)
    (old : ∀ e, Table.get? place entries = some e → plainFile? (place, e) = none) :
    (Table.set place entry entries).filterMap plainFile? = entries.filterMap plainFile? := by
  induction entries with
  | nil => simp [Table.set, new]
  | cons first rest ih =>
    obtain ⟨p, e⟩ := first
    rw [Table.set]
    split
    · rename_i same
      subst same
      have oldPlain := old e (by rw [Table.get?, if_pos rfl])
      simp [new, oldPlain]
    · rename_i differs
      have later := ih fun e found => old e (by rw [Table.get?, if_neg differs, found])
      rw [List.filterMap_cons, List.filterMap_cons, later]

/-- **Aside of stores.** Directories and stores come and go without a trace in the plain files. -/
theorem Puts.plainFiles_eq {fs fs' : FileSystem} (wf : fs.WellFormed)
    (steps : Puts PutsAside fs fs') : fs'.plainFiles = fs.plainFiles := by
  induction steps with
  | nil => rfl
  | @put fs' place entry before fits aside ih =>
    rw [← ih]
    by_cases root : place = []
    · subst root
      exact plainFiles_put_root fs' entry
    rw [plainFiles, entries_put fs' root]
    refine filterMap_set (plainFile?_of_aside aside) ?_
    intro old found
    rcases aside with directory | named
    · -- a directory is put over nothing or a directory
      cases old with
      | directory number changed => exact plainFile?_of_aside (.inl rfl)
      | file node =>
        have below := (before.wellFormed wf).ne_nil_of_file (Table.mem_of_get? found)
        rw [← entry?_of_ne_nil fs' below] at found
        have kind := (fits.sameKind _ found).mp rfl
        rw [show entry.node? = none from directory] at kind
        cases kind
    · exact plainFile?_of_aside (.inr named)

/-! ## What is found -/

theorem isSourceFile_nil (excluded : List Text) : isSourceFile excluded [] = false := by
  have ending : Settings.fileEndings.any (Text.endsWith [] ·) = false := by decide
  simp [isSourceFile, ending]

theorem isSourceFile_storeName {excluded : List Text} {names : List Text}
    (named : names.getLast? = some storeName) : isSourceFile excluded names = false := by
  have ending : Settings.fileEndings.any (Text.endsWith storeName ·) = false := by decide
  simp [isSourceFile, named, ending]

/-- The names of a file below a place. -/
def namesBelow? (place : Place) (f : Place × FileNode) : Option (List Text) :=
  if place.isPrefixOf f.1 then some (f.1.drop place.length) else none

theorem isSourceFile_drop {excluded : List Text} {place p : Place}
    (named : p.getLast? = some storeName) :
    isSourceFile excluded (p.drop place.length) = false := by
  by_cases empty : p.length ≤ place.length
  · rw [List.drop_eq_nil_of_le empty]
    exact isSourceFile_nil excluded
  · apply isSourceFile_storeName
    rw [List.getLast?_drop, if_neg empty, named]

/-- Source files are found among the plain files. -/
theorem sourceFiles_eq (fs : FileSystem) (root : Path) (excluded : List Text) :
    fs.sourceFiles root excluded =
      ((fs.plainFiles.filterMap (namesBelow? root.names)).filter
        (isSourceFile excluded)).mergeSort Path.namesLe := by
  rw [sourceFiles, filesBelow, plainFiles, List.filter_filterMap, List.filterMap_filterMap,
    List.filter_filterMap]
  congr 2
  funext ⟨p, entry⟩
  cases entry with
  | directory number changed =>
    have notPlain : plainFile? (p, .directory number changed) = none :=
      plainFile?_of_aside (.inl rfl)
    rw [notPlain]
    rfl
  | file node =>
    by_cases named : p.getLast? = some storeName
    · rw [plainFile?_of_aside (.inr named)]
      show Option.filter _ (if _ then some _ else none) = none
      split
      · rw [Option.filter_some, if_neg (by simp [isSourceFile_drop named])]
      · rfl
    · have plain : plainFile? (p, .file node) = some (p, node) := by
        rw [plainFile?, if_neg named]
        rfl
      rw [plain]
      rfl

/-- A source file is a plain file below the root. -/
theorem plain_of_mem_sourceFiles {fs : FileSystem} {root : Path} {excluded names : List Text}
    (found : names ∈ fs.sourceFiles root excluded) :
    ∃ node, (root.names ++ names, node) ∈ fs.plainFiles := by
  rw [sourceFiles_eq, List.mem_mergeSort] at found
  obtain ⟨⟨p, node⟩, mem, isBelow⟩ := List.mem_filterMap.mp (List.mem_filter.mp found).1
  unfold namesBelow? at isBelow
  split at isBelow
  · rename_i isPrefix
    cases isBelow
    obtain ⟨rest, whole⟩ := List.isPrefixOf_iff_prefix.mp isPrefix
    refine ⟨node, ?_⟩
    rw [← whole, List.drop_left]
    rwa [whole]
  · cases isBelow

/-! ## Where their paths lead -/

theorem WellFormed.isDirectoryAt_of_prefix {fs : FileSystem} (wf : fs.WellFormed)
    {place below : Place} (directory : fs.IsDirectoryAt (place ++ below)) :
    fs.IsDirectoryAt place := by
  induction length : below.length generalizing below with
  | zero =>
    rw [List.length_eq_zero_iff.mp length, List.append_nil] at directory
    exact directory
  | succ n ih =>
    have nonempty : below ≠ [] := by
      rintro rfl
      cases length
    have upper := wf.isDirectoryAt_dropLast directory
    rw [List.dropLast_append_of_ne_nil nonempty] at upper
    exact ih upper (by rw [List.length_dropLast, length]; rfl)

/-- The names of a place lead there, if the system lets it be looked up. -/
theorem WellFormed.follow_append {fs : FileSystem} (wf : fs.WellFormed) {start names : List Text}
    (folded : Path.up ∉ names) (short : ∀ name ∈ names, Path.nameSize name ≤ Path.longestName)
    (directory : names ≠ [] → fs.IsDirectoryAt (start ++ names).dropLast)
    (inOpen : names ≠ [] → (start ++ names).dropLast ∉ fs.closed) :
    fs.follow start names = .ok (start ++ names) := by
  induction names generalizing start with
  | nil => rw [follow, List.append_nil]
  | cons name rest ih =>
    simp only [List.mem_cons, not_or] at folded
    have above : (start ++ name :: rest).dropLast = start ++ (name :: rest).dropLast :=
      List.dropLast_append_of_ne_nil (List.cons_ne_nil _ _)
    have next : (start ++ [name]) ++ rest = start ++ name :: rest := by
      rw [List.append_assoc, List.singleton_append]
    rw [above] at directory inOpen
    have isDirectory : fs.IsDirectoryAt start :=
      wf.isDirectoryAt_of_prefix (directory (List.cons_ne_nil _ _))
    have isOpen : start ∉ fs.closed := by
      cases rest with
      | nil => simpa using inOpen (List.cons_ne_nil _ _)
      | cons second more =>
        -- the next place is a directory too, so it is listed in an open one
        rw [List.dropLast_cons_cons, List.append_cons] at directory
        obtain ⟨number, changed, found⟩ :=
          wf.isDirectoryAt_of_prefix (directory (List.cons_ne_nil _ _))
        have below : start ++ [name] ≠ [] := by simp
        have listed := mem_entries_of_entry below found
        have isOpen := (wf.admitted _ _ listed).inOpen below
        rwa [List.dropLast_concat] at isOpen
    have entered : fs.enter start name = .ok (start ++ [name]) := by
      refine enter_eq_ok_iff.mpr ⟨isDirectory, isOpen, short name List.mem_cons_self, ?_⟩
      rw [Path.foldStep, if_neg (Ne.symm folded.1)]
    refine follow_cons_eq_ok_iff.mpr ⟨start ++ [name], entered, ?_⟩
    rw [ih folded.2 (fun name mem => short name (List.mem_cons_of_mem _ mem)), next]
    · intro _
      rw [next, above]
      exact directory (List.cons_ne_nil _ _)
    · intro _
      rw [next, above]
      exact inOpen (List.cons_ne_nil _ _)

/-- A plain file holds data, and its names are those of a file. -/
theorem data_of_plain {fs : FileSystem} (wf : fs.WellFormed) {place : Place} {node : FileNode}
    (plain : (place, node) ∈ fs.plainFiles) :
    ∃ d, node.content = .data d ∧ ∀ name ∈ place, IsFileName name := by
  obtain ⟨mem, notStore⟩ := mem_plainFiles.mp plain
  obtain ⟨number, changed, content⟩ := node
  have allowed := wf.allowed _ _ mem
  cases content with
  | data d => exact ⟨d, rfl, allowed.2⟩
  | store s => exact absurd allowed notStore

/-- The path of whatever is listed leads there, if it is one that a file can have. -/
theorem WellFormed.locate_of_mem {fs : FileSystem} (wf : fs.WellFormed) {place : Place}
    {entry : Entry} (below : place ≠ []) (mem : (place, entry) ∈ fs.entries) {anchor : Anchor}
    (sound : (Path.mk anchor place).error? = none) :
    fs.locate ⟨anchor, place⟩ = .ok (place, entry) := by
  have admitted := wf.admitted _ _ mem
  have followed : fs.follow [] place = .ok place :=
    wf.follow_append (wf.folded _ _ mem) admitted.shortNames (fun _ => wf.parent _ _ mem below)
      admitted.inOpen
  rw [locate_eq_ok_iff, target_eq_ok_iff]
  exact ⟨sound, admitted.shortPath, followed, wf.entry?_of_mem below mem⟩

theorem locate_of_plain {fs : FileSystem} (wf : fs.WellFormed) {place : Place} {node : FileNode}
    (plain : (place, node) ∈ fs.plainFiles) (anchor : Anchor) :
    fs.locate ⟨anchor, place⟩ = .ok (place, .file node) := by
  obtain ⟨mem, -⟩ := mem_plainFiles.mp plain
  obtain ⟨-, -, fileNames⟩ := data_of_plain wf plain
  exact wf.locate_of_mem (wf.ne_nil_of_file mem) mem
    ((Path.error?_eq_none_iff _).mpr fun name isName => (fileNames name isName).2)

/-! ## What is read -/

/-- What a path shows: the mark of a file and the data that can be read from it. -/
structure Shows (fs : FileSystem) (path : Path) (mark : Mark) (d : FileData) : Prop where
  data : fs.data? path = .ok (some d)
  mark : fs.mark path = .ok (some mark)

/-- A file with a mark and with data, which a path shows unless the file is sealed. -/
structure Stands (fs : FileSystem) (path : Path) (place : Place) (mark : Mark) (d : FileData) :
    Prop where
  data : fs.data? path = .ok (if fs.sealed.contains place then none else some d)
  mark : fs.mark path = .ok (some mark)

theorem Stands.shows {fs : FileSystem} {path : Path} {place : Place} {mark : Mark} {d : FileData}
    (stands : fs.Stands path place mark d) (unsealed : fs.sealed.contains place = false) :
    fs.Shows path mark d :=
  ⟨by rw [stands.data, unsealed]; rfl, stands.mark⟩

theorem isFile_of_locate {fs : FileSystem} {path : Path} {place : Place} {node : FileNode}
    (located : fs.locate path = .ok (place, .file node)) : fs.isFile path = .ok true := by
  rw [isFile, look, located]
  rfl

theorem data?_of_locate {fs : FileSystem} {path : Path} {place : Place} {number : Nat}
    {changed : Time} {d : FileData}
    (located : fs.locate path = .ok (place, .file ⟨number, changed, .data d⟩)) :
    fs.data? path = .ok (if fs.sealed.contains place then none else some d) := by
  rw [data?, isFile_of_locate located, content, located]
  by_cases isSealed : place ∈ fs.sealed
  · simp [bind, Except.bind, pure, Except.pure, throw, throwThe, MonadExceptOf.throw, isSealed]
  · simp [bind, Except.bind, pure, Except.pure, isSealed]

/-- What is read stands in a file that is not sealed. -/
theorem locate_of_data? {fs : FileSystem} {path : Path} {d : FileData}
    (read : fs.data? path = .ok (some d)) :
    ∃ place number changed, fs.locate path = .ok (place, .file ⟨number, changed, .data d⟩) ∧
      place ∉ fs.sealed := by
  unfold data? at read
  cases isFile : fs.isFile path with
  | error e =>
    rw [isFile] at read
    cases read
  | ok there =>
    rw [isFile] at read
    cases there with
    | false => cases read
    | true =>
      unfold content at read
      cases located : fs.locate path with
      | error e =>
        rw [located] at read
        cases read
      | ok result =>
        rw [located] at read
        obtain ⟨place, _ | ⟨number, changed, content⟩⟩ := result
        · cases read
        · by_cases isSealed : place ∈ fs.sealed
          · simp [bind, Except.bind, pure, Except.pure, throw, throwThe, MonadExceptOf.throw,
              isSealed] at read
          · cases content with
            | store s => simp [bind, Except.bind, pure, Except.pure, isSealed] at read
            | data d' =>
              simp [bind, Except.bind, pure, Except.pure, isSealed] at read
              subst read
              exact ⟨place, number, changed, rfl, isSealed⟩

theorem Shows.unsealed {fs : FileSystem} {anchor : Anchor} {names : List Text} {mark : Mark}
    {d : FileData} (shows : fs.Shows ⟨anchor, names⟩ mark d) (folded : Path.up ∉ names) :
    names ∉ fs.sealed := by
  obtain ⟨place, _, _, located, unsealed⟩ := locate_of_data? shows.data
  obtain ⟨-, followed, -⟩ := target_eq_ok_iff.mp (locate_eq_ok_iff.mp located).2
  have same : place = names :=
    (follow_eq_foldl followed).trans (Path.foldl_foldStep_of_folded [] folded)
  rwa [same] at unsealed

theorem stands_of_plain {fs : FileSystem} (wf : fs.WellFormed) {place : Place} {node : FileNode}
    (plain : (place, node) ∈ fs.plainFiles) {d : FileData} (holds : node.content = .data d)
    (anchor : Anchor) : fs.Stands ⟨anchor, place⟩ place (Entry.file node).mark d := by
  have located := locate_of_plain wf plain anchor
  obtain ⟨number, changed, content⟩ := node
  cases holds
  refine ⟨data?_of_locate located, ?_⟩
  rw [mark, located]

/-- **Source files** are files with data to which their paths lead, in every well-formed file system
with the same plain files. -/
theorem sourceFiles_stand {fs : FileSystem} (wf : fs.WellFormed) {root : Path}
    {excluded names : List Text} (found : names ∈ fs.sourceFiles root excluded) :
    root.names ++ names ≠ [] ∧ Path.up ∉ root.names ++ names ∧
      (∀ name ∈ root.names ++ names, IsFileName name) ∧
      ∃ mark d, ∀ fs' : FileSystem, fs'.WellFormed → fs'.plainFiles = fs.plainFiles →
        fs'.Stands (Scan.absolute root names) (root.names ++ names) mark d := by
  obtain ⟨node, plain⟩ := plain_of_mem_sourceFiles found
  obtain ⟨d, holds, fileNames⟩ := data_of_plain wf plain
  have listed := (mem_plainFiles.mp plain).1
  refine ⟨wf.ne_nil_of_file listed, wf.folded _ _ listed, fileNames, (Entry.file node).mark, d, ?_⟩
  intro fs' wf' same
  exact stands_of_plain wf' (by rwa [same]) holds root.anchor

end FileSystem

end JsxOrigin
