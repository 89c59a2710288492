import JsxOrigin.Proofs.Storage.Path
import JsxOrigin.Proofs.Table
import JsxOrigin.Storage.OpenStore

/-!
# Well-formed file systems

What the operations on a file system keep true. Every place is listed once and in a directory, no
place has two dots in it, the system lets each one be looked up, a file with data has names that the
system knows, and a store has the name that stores are opened by.

All changes but a removal come down to putting an entry where it fits: a directory over nothing or a
directory, a file over nothing or a file (`Fits`). The law for one such step (`WellFormed.put`)
carries over to any number of them (`Puts.wellFormed`), so each operation only has to be shown to be
a sequence of fitting steps.
-/

namespace JsxOrigin

namespace FileSystem

/-! ## Entries -/

/-- Whether a directory stands at a place. -/
def IsDirectoryAt (fs : FileSystem) (place : Place) : Prop :=
  ∃ number changed, fs.entry? place = some (.directory number changed)

theorem entry?_of_ne_nil (fs : FileSystem) {place : Place} (below : place ≠ []) :
    fs.entry? place = Table.get? place fs.entries := by
  unfold entry?
  rw [if_neg below]

theorem isDirectoryAt_root (fs : FileSystem) : fs.IsDirectoryAt [] := ⟨0, fs.rootChanged, rfl⟩

theorem ne_nil_of_file {fs : FileSystem} {place : Place} {node : FileNode}
    (found : fs.entry? place = some (.file node)) : place ≠ [] := by
  rintro rfl
  cases found

theorem ne_nil_of_missing {fs : FileSystem} {place : Place} (missing : fs.entry? place = none) :
    place ≠ [] := by
  rintro rfl
  cases missing

theorem mem_entries_of_entry {fs : FileSystem} {place : Place} {entry : Entry} (below : place ≠ [])
    (found : fs.entry? place = some entry) : (place, entry) ∈ fs.entries := by
  rw [entry?_of_ne_nil fs below] at found
  exact Table.mem_of_get? found

/-! ## Puts -/

theorem entries_put (fs : FileSystem) {place : Place} (below : place ≠ []) (entry : Entry) :
    (fs.put place entry).entries = Table.set place entry fs.entries := by
  rw [put, if_neg below]

theorem put_root (fs : FileSystem) (entry : Entry) :
    fs.put [] entry = { fs with rootChanged := entry.mark.changed, clock := fs.clock + 1 } := rfl

@[simp] theorem sealed_put (fs : FileSystem) (place : Place) (entry : Entry) :
    (fs.put place entry).sealed = fs.sealed := by
  unfold put
  split <;> rfl

@[simp] theorem closed_put (fs : FileSystem) (place : Place) (entry : Entry) :
    (fs.put place entry).closed = fs.closed := by
  unfold put
  split <;> rfl

theorem mem_entries_put {fs : FileSystem} {place p : Place} {entry e : Entry}
    (mem : (p, e) ∈ (fs.put place entry).entries) :
    (p, e) = (place, entry) ∨ (p, e) ∈ fs.entries := by
  by_cases below : place = []
  · subst below
    exact .inr mem
  · rw [entries_put fs below] at mem
    exact Table.mem_of_mem_set mem

theorem entry?_put_self (fs : FileSystem) {place : Place} (below : place ≠ []) (entry : Entry) :
    FileSystem.entry? (fs.put place entry) place = some entry := by
  rw [entry?_of_ne_nil _ below, entries_put fs below]
  exact Table.get?_set_self place entry fs.entries

theorem entry?_put_of_ne (fs : FileSystem) {place other : Place} (differs : other ≠ place)
    (entry : Entry) : FileSystem.entry? (fs.put place entry) other = fs.entry? other := by
  by_cases root : place = []
  · subst root
    rw [entry?_of_ne_nil _ differs, entry?_of_ne_nil _ differs, put_root]
  · by_cases below : other = []
    · subst below
      rw [put, if_neg root]
      rfl
    · rw [entry?_of_ne_nil _ below, entry?_of_ne_nil _ below, entries_put fs root]
      exact Table.get?_set_of_ne differs entry fs.entries

/-! ## Well-formedness -/

/-- A name that a file can have: without a slash, and one that the system can encode. -/
def IsFileName (name : Text) : Prop := .scalar '/' ∉ name ∧ Path.nameError? name = none

/-- What an entry asks of the place that it stands at. -/
def AllowedAt (place : Place) : Entry → Prop
  | .directory .. => True
  | .file ⟨_, _, .data _⟩ => place ≠ [] ∧ ∀ name ∈ place, IsFileName name
  | .file ⟨_, _, .store _⟩ => place.getLast? = some storeName

/-- What the system asks of a place that can be looked up: that it is not in a closed directory, and
that neither its names nor its path are too long. -/
structure Admits (fs : FileSystem) (place : Place) : Prop where
  inOpen : place ≠ [] → place.dropLast ∉ fs.closed
  shortNames : ∀ name ∈ place, Path.nameSize name ≤ Path.longestName
  shortPath : Path.size place ≤ Path.longestPath

theorem admits_root (fs : FileSystem) : fs.Admits [] where
  inOpen below := absurd rfl below
  shortNames _ mem := absurd mem List.not_mem_nil
  shortPath := Nat.zero_le _

/-- What every operation keeps true. -/
structure WellFormed (fs : FileSystem) : Prop where
  /-- A place is listed once. -/
  once : fs.entries.keys.Nodup
  /-- Whatever is listed is in a directory. -/
  parent : ∀ place entry, (place, entry) ∈ fs.entries → place ≠ [] →
    fs.IsDirectoryAt place.dropLast
  /-- No two dots are left in a place. -/
  folded : ∀ place entry, (place, entry) ∈ fs.entries → Path.up ∉ place
  /-- Whatever is listed can be looked up. -/
  admitted : ∀ place entry, (place, entry) ∈ fs.entries → fs.Admits place
  allowed : ∀ place entry, (place, entry) ∈ fs.entries → AllowedAt place entry

theorem wellFormed_empty : WellFormed {} := by
  refine ⟨List.nodup_nil, ?_, ?_, ?_, ?_⟩
  all_goals
    intro _ _ mem
    cases mem

theorem WellFormed.entry?_of_mem {fs : FileSystem} (wf : fs.WellFormed) {place : Place}
    {entry : Entry} (below : place ≠ []) (mem : (place, entry) ∈ fs.entries) :
    fs.entry? place = some entry := by
  rw [entry?_of_ne_nil fs below]
  exact Table.get?_of_mem wf.once mem

/-- The root is no file. -/
theorem WellFormed.ne_nil_of_file {fs : FileSystem} (wf : fs.WellFormed) {place : Place}
    {node : FileNode} (mem : (place, .file node) ∈ fs.entries) : place ≠ [] := by
  obtain ⟨number, changed, content⟩ := node
  have allowed := wf.allowed _ _ mem
  cases content with
  | data d => exact allowed.1
  | store s =>
    rintro rfl
    cases allowed

/-- The parent of a directory is a directory. -/
theorem WellFormed.isDirectoryAt_dropLast {fs : FileSystem} (wf : fs.WellFormed) {place : Place}
    (directory : fs.IsDirectoryAt place) : fs.IsDirectoryAt place.dropLast := by
  by_cases below : place = []
  · subst below
    exact fs.isDirectoryAt_root
  · obtain ⟨number, changed, found⟩ := directory
    exact wf.parent place _ (mem_entries_of_entry below found) below

/-! ## Putting an entry where it fits -/

/-- Whether an entry can be put at a place: in a directory, and over nothing or an entry of its
kind. -/
structure Fits (fs : FileSystem) (place : Place) (entry : Entry) : Prop where
  folded : Path.up ∉ place
  parent : fs.IsDirectoryAt place.dropLast
  admitted : fs.Admits place
  sameKind : ∀ old, fs.entry? place = some old → (old.node?.isSome ↔ entry.node?.isSome)
  allowed : AllowedAt place entry

theorem isDirectoryAt_put {fs : FileSystem} {place : Place} {entry : Entry}
    (fits : fs.Fits place entry) {other : Place} (directory : fs.IsDirectoryAt other) :
    (fs.put place entry).IsDirectoryAt other := by
  by_cases same : other = place
  · subst same
    by_cases below : other = []
    · subst below
      exact isDirectoryAt_root _
    · obtain ⟨number, changed, found⟩ := directory
      have kind := fits.sameKind _ found
      cases entry with
      | directory n c => exact ⟨n, c, entry?_put_self fs below _⟩
      | file node => simp [Entry.node?] at kind
  · obtain ⟨number, changed, found⟩ := directory
    exact ⟨number, changed, by rw [entry?_put_of_ne fs same, found]⟩

/-- **One step.** Putting an entry where it fits keeps a file system well formed. -/
theorem WellFormed.put {fs : FileSystem} (wf : fs.WellFormed) {place : Place} {entry : Entry}
    (fits : fs.Fits place entry) : (fs.put place entry).WellFormed where
  once := by
    by_cases below : place = []
    · subst below
      exact wf.once
    · rw [entries_put fs below]
      exact Table.nodup_keys_set wf.once place entry
  parent := by
    intro p e mem below
    apply isDirectoryAt_put fits
    rcases mem_entries_put mem with same | old
    · cases same
      exact fits.parent
    · exact wf.parent p e old below
  folded := by
    intro p e mem
    rcases mem_entries_put mem with same | old
    · cases same
      exact fits.folded
    · exact wf.folded p e old
  admitted := by
    intro p e mem
    have before : fs.Admits p := by
      rcases mem_entries_put mem with same | old
      · cases same
        exact fits.admitted
      · exact wf.admitted p e old
    exact ⟨by rw [closed_put]; exact before.inOpen, before.shortNames, before.shortPath⟩
  allowed := by
    intro p e mem
    rcases mem_entries_put mem with same | old
    · cases same
      exact fits.allowed
    · exact wf.allowed p e old

/-- One file system after another by fitting steps, each of which puts an entry of a kind. -/
inductive Puts (kind : Place → Entry → Prop) (fs : FileSystem) : FileSystem → Prop where
  | nil : Puts kind fs fs
  | put {fs' : FileSystem} {place : Place} {entry : Entry} (before : Puts kind fs fs')
    (fits : fs'.Fits place entry) (isKind : kind place entry) : Puts kind fs (fs'.put place entry)

namespace Puts

variable {kind : Place → Entry → Prop} {fs fs' fs'' : FileSystem}

theorem trans (first : Puts kind fs fs') (second : Puts kind fs' fs'') : Puts kind fs fs'' := by
  induction second with
  | nil => exact first
  | put _ fits isKind ih => exact .put ih fits isKind

theorem mono {wider : Place → Entry → Prop}
    (wide : ∀ place entry, kind place entry → wider place entry) (steps : Puts kind fs fs') :
    Puts wider fs fs' := by
  induction steps with
  | nil => exact .nil
  | put _ fits isKind ih => exact .put ih fits (wide _ _ isKind)

theorem sealed_eq (steps : Puts kind fs fs') : fs'.sealed = fs.sealed := by
  induction steps with
  | nil => rfl
  | put _ _ _ ih => rw [sealed_put, ih]

theorem sealed_subset (steps : Puts kind fs fs') : fs'.sealed ⊆ fs.sealed := by
  rw [steps.sealed_eq]
  exact List.Subset.refl _

/-- **Any number of steps.** -/
theorem wellFormed (steps : Puts kind fs fs') (wf : fs.WellFormed) : fs'.WellFormed := by
  induction steps with
  | nil => exact wf
  | put _ fits _ ih => exact ih.put fits

end Puts

/-- An entry of a file system can be replaced by one of its kind. -/
theorem fits_of_some {fs : FileSystem} (wf : fs.WellFormed) {place : Place} {old entry : Entry}
    (found : fs.entry? place = some old) (sameKind : old.node?.isSome ↔ entry.node?.isSome)
    (allowed : AllowedAt place entry) : fs.Fits place entry := by
  have sameKind : ∀ e, fs.entry? place = some e → (e.node?.isSome ↔ entry.node?.isSome) := by
    intro e isEntry
    rw [found] at isEntry
    cases isEntry
    exact sameKind
  by_cases below : place = []
  · subst below
    exact ⟨List.not_mem_nil, fs.isDirectoryAt_root, fs.admits_root, sameKind, allowed⟩
  · have mem := mem_entries_of_entry below found
    exact ⟨wf.folded place _ mem, wf.parent place _ mem below, wf.admitted place _ mem, sameKind,
      allowed⟩

/-- The kind of a directory, wherever it is put. -/
def PutsDirectory (_ : Place) (entry : Entry) : Prop := entry.node? = none

theorem stamp_puts {fs : FileSystem} (wf : fs.WellFormed) (place : Place) :
    Puts PutsDirectory fs (fs.stamp place) := by
  unfold stamp
  split
  · rename_i number changed found
    exact .put .nil (fits_of_some wf found Iff.rfl trivial) rfl
  · exact .nil

/-- Adding an entry puts it and marks its directory. -/
theorem add_puts {fs : FileSystem} (wf : fs.WellFormed) {place : Place} {entry : Entry}
    (fits : fs.Fits place entry) {kind : Place → Entry → Prop} (isKind : kind place entry)
    (directories : ∀ p e, PutsDirectory p e → kind p e) : Puts kind fs (fs.add place entry) := by
  have first : Puts kind fs (fs.put place entry) := .put .nil fits isKind
  exact first.trans ((stamp_puts (wf.put fits) _).mono directories)

/-! ## Following names -/

/-- **One name** is looked up in an open directory, if it is not too long. -/
theorem enter_eq_ok_iff {fs : FileSystem} {place next : Place} {name : Text} :
    fs.enter place name = .ok next ↔
      fs.IsDirectoryAt place ∧ place ∉ fs.closed ∧ Path.nameSize name ≤ Path.longestName ∧
        next = Path.foldStep place name := by
  unfold enter IsDirectoryAt
  split
  · rename_i number changed found
    by_cases isClosed : place ∈ fs.closed
    · simp [isClosed]
    · by_cases long : Path.longestName < Path.nameSize name
      · simp [isClosed, long, Nat.not_le.mpr long]
      · simp [isClosed, long, found, Nat.not_lt.mp long, eq_comm]
  · rename_i node found
    simp [found]
  · rename_i missing
    simp [missing]

theorem follow_cons_eq_ok_iff {fs : FileSystem} {start place : Place} {name : Text}
    {rest : List Text} :
    fs.follow start (name :: rest) = .ok place ↔
      ∃ next, fs.enter start name = .ok next ∧ fs.follow next rest = .ok place := by
  rw [follow]
  cases fs.enter start name <;> simp

/-- Where names lead is told by the names alone. -/
theorem follow_eq_foldl {fs : FileSystem} {start place : Place} {names : List Text}
    (followed : fs.follow start names = .ok place) : place = names.foldl Path.foldStep start := by
  induction names generalizing start with
  | nil =>
    cases followed
    rfl
  | cons name rest ih =>
    obtain ⟨next, entered, followed⟩ := follow_cons_eq_ok_iff.mp followed
    obtain ⟨-, -, -, rfl⟩ := enter_eq_ok_iff.mp entered
    exact ih followed

theorem follow_mem {fs : FileSystem} {start place : Place} {names : List Text}
    (followed : fs.follow start names = .ok place) {name : Text} (mem : name ∈ place) :
    name ∈ start ∨ (name ∈ names ∧ name ≠ Path.up) := by
  rw [follow_eq_foldl followed] at mem
  exact Path.mem_foldl_foldStep mem

/-- The names that are followed from the root are those of the place, and others. -/
theorem mem_of_follow {fs : FileSystem} {place : Place} {names : List Text}
    (followed : fs.follow [] names = .ok place) {name : Text} (mem : name ∈ place) :
    name ∈ names := by
  rcases follow_mem followed mem with inRoot | ⟨inNames, -⟩
  · cases inRoot
  · exact inNames

theorem follow_short {fs : FileSystem} {start place : Place} {names : List Text}
    (followed : fs.follow start names = .ok place) :
    ∀ name ∈ names, Path.nameSize name ≤ Path.longestName := by
  induction names generalizing start with
  | nil => exact fun _ mem => absurd mem List.not_mem_nil
  | cons name rest ih =>
    obtain ⟨next, entered, followed⟩ := follow_cons_eq_ok_iff.mp followed
    exact List.forall_mem_cons.mpr ⟨(enter_eq_ok_iff.mp entered).2.2.1, ih followed⟩

/-- The last of some names is looked up in a directory. -/
theorem follow_concat {fs : FileSystem} {start place : Place} {names : List Text} {name : Text}
    (followed : fs.follow start (names ++ [name]) = .ok place) :
    ∃ parent, fs.follow start names = .ok parent ∧ fs.enter parent name = .ok place := by
  induction names generalizing start with
  | nil =>
    obtain ⟨next, entered, isNext⟩ := follow_cons_eq_ok_iff.mp followed
    cases isNext
    exact ⟨start, rfl, entered⟩
  | cons first rest ih =>
    obtain ⟨next, entered, followed⟩ := follow_cons_eq_ok_iff.mp followed
    obtain ⟨parent, reached, last⟩ := ih followed
    exact ⟨parent, follow_cons_eq_ok_iff.mpr ⟨next, entered, reached⟩, last⟩

theorem target_eq_ok_iff {fs : FileSystem} {names : List Text} {place : Place}
    {found : Option Entry} :
    fs.target names = .ok (place, found) ↔
      Path.size names ≤ Path.longestPath ∧ fs.follow [] names = .ok place ∧
        fs.entry? place = found := by
  by_cases long : Path.longestPath < Path.size names
  · have refused : fs.target names = .error .tooLong := by
      rw [target, if_pos long]
      rfl
    simp [refused, Nat.not_le.mpr long]
  · rw [target, if_neg long]
    cases followed : fs.follow [] names with
    | error e => simp [bind, Except.bind]
    | ok reached =>
      simp only [bind, Except.bind, pure, Except.pure, Except.ok.injEq, Prod.mk.injEq,
        Nat.not_lt.mp long, true_and]
      constructor
      · rintro ⟨rfl, isFound⟩
        exact ⟨rfl, isFound⟩
      · rintro ⟨rfl, isFound⟩
        exact ⟨rfl, isFound⟩

/-- A place at which nothing stands yet takes any entry that it allows. -/
theorem fits_of_none {fs : FileSystem} (wf : fs.WellFormed) {names : List Text} {place : Place}
    {entry : Entry} (short : Path.size names ≤ Path.longestPath)
    (followed : fs.follow [] names = .ok place) (missing : fs.entry? place = none)
    (allowed : AllowedAt place entry) : fs.Fits place entry := by
  have below := ne_nil_of_missing missing
  obtain rfl | ⟨before, name, rfl⟩ := Path.eq_nil_or_append names
  · cases followed
    exact absurd rfl below
  obtain ⟨parent, reached, entered⟩ := follow_concat followed
  obtain ⟨directory, isOpen, -, isPlace⟩ := enter_eq_ok_iff.mp entered
  -- two dots would lead to the parent of a directory, which is one
  have notUp : name ≠ Path.up := by
    rintro rfl
    obtain ⟨number, changed, found⟩ := wf.isDirectoryAt_dropLast directory
    rw [isPlace, Path.foldStep, if_pos rfl, found] at missing
    cases missing
  have above : place.dropLast = parent := by
    rw [isPlace, Path.foldStep, if_neg notUp, List.dropLast_concat]
  refine ⟨?_, ?_, ⟨?_, ?_, ?_⟩, ?_, allowed⟩
  · intro isUp
    rcases follow_mem followed isUp with inRoot | ⟨-, notUp⟩
    · cases inRoot
    · exact notUp rfl
  · rwa [above]
  · intro _
    rwa [above]
  · exact fun name mem => follow_short followed name (mem_of_follow followed mem)
  · rw [follow_eq_foldl followed]
    have folded := Path.size_foldl_le [] (before ++ [name])
    have none : Path.size [] = 0 := rfl
    omega
  · intro old found
    rw [missing] at found
    cases found

end FileSystem

end JsxOrigin
