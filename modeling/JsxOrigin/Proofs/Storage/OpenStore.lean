import JsxOrigin.Proofs.Storage.Operations
import JsxOrigin.Storage.KeptGraph

/-!
# Laws of open stores

Opening, reading and writing a store, as what they do to a well-formed file system: they put
directories and the store itself, and nothing else. A hold on a store that its name leads to
(`Holds`) can be read and written, and stays one through every write.
-/

namespace JsxOrigin

namespace FileSystem

/-! ## Writing -/

theorem entry?_stamp_of_file {fs : FileSystem} {place other : Place} {node : FileNode}
    (found : fs.entry? other = some (.file node)) :
    FileSystem.entry? (fs.stamp place) other = some (.file node) := by
  unfold stamp
  split
  · rename_i number changed directory
    have differs : other ≠ place := by
      rintro rfl
      rw [directory] at found
      cases found
    rw [entry?_put_of_ne fs differs, found]
  · exact found

/-- The kind of a directory, or of a store that holds `s` at a place named like a store. -/
def PutsStore (place : Place) (s : GraphStore) (p : Place) (entry : Entry) : Prop :=
  PutsDirectory p entry ∨
    (p = place ∧ place.getLast? = some storeName ∧ entry.store? = some s)

theorem Puts.storeAt_of_store {place : Place} {s t : GraphStore} {fs fs' : FileSystem}
    (steps : Puts (PutsStore place s) fs fs') {p : Place} (found : fs'.storeAt p = some t) :
    fs.storeAt p = some t ∨ (p = place ∧ t = s) := by
  rcases steps.storeAt_cases found with before | ⟨entry, directory | ⟨same, -, isStore⟩, new⟩
  · exact .inl before
  · cases entry with
    | directory number changed => cases new
    | file node => cases directory
  · rw [isStore] at new
    cases new
    exact .inr ⟨same, rfl⟩

theorem writeNamed_puts {fs : FileSystem} (wf : fs.WellFormed) {place : Place} {node : FileNode}
    (found : fs.entry? place = some (.file node)) (named : place.getLast? = some storeName)
    (s : GraphStore) : Puts (PutsStore place s) fs (fs.writeNamed place node s) := by
  have fits : fs.Fits place (.file { node with changed := fs.now, content := .store s }) :=
    fits_of_some wf found Iff.rfl named
  have first : Puts (PutsStore place s) fs (fs.put place _) :=
    .put .nil fits (.inr ⟨rfl, named, rfl⟩)
  exact first.trans ((stamp_puts (wf.put fits) _).mono fun _ _ => .inl)

/-- A hold on a store that its name leads to and that holds `s`. -/
structure Holds (fs : FileSystem) (held : OpenStore) (s : GraphStore) : Prop where
  isOpen : held.isOpen = true
  named : ∃ node, fs.entry? held.place = some (.file node) ∧ node.number = held.number ∧
    node.content = .store s

theorem named?_eq_some {fs : FileSystem} {held : OpenStore} {node : FileNode} :
    fs.named? held = some node ↔
      fs.entry? held.place = some (.file node) ∧ node.number = held.number := by
  unfold named?
  cases found : fs.entry? held.place with
  | none => simp
  | some entry =>
    cases entry with
    | directory number changed => simp [Entry.node?]
    | file other =>
      simp only [Option.bind_some, Entry.node?, Option.filter_eq_some_iff, Option.some.injEq,
        Entry.file.injEq, decide_eq_true_eq]

theorem Holds.readStore {fs : FileSystem} {held : OpenStore} {s : GraphStore}
    (holds : fs.Holds held s) : fs.readStore held = .ok s := by
  obtain ⟨node, found, number, content⟩ := holds.named
  have isNamed := named?_eq_some.mpr ⟨found, number⟩
  simp [FileSystem.readStore, holds.isOpen, held?, isNamed, content]

theorem Holds.storeAt {fs : FileSystem} {held : OpenStore} {s : GraphStore}
    (holds : fs.Holds held s) : fs.storeAt held.place = some s := by
  obtain ⟨⟨number, changed, content⟩, found, -, isContent⟩ := holds.named
  cases isContent
  rw [FileSystem.storeAt, found]
  rfl

/-- A hold can be written, and what is written is what it holds. -/
theorem Holds.writeStore {fs : FileSystem} {held : OpenStore} {s : GraphStore}
    (holds : fs.Holds held s) (t : GraphStore) :
    ∃ fs', fs.writeStore held t = .ok fs' ∧ fs'.Holds held t := by
  obtain ⟨node, found, number, content⟩ := holds.named
  have isNamed := named?_eq_some.mpr ⟨found, number⟩
  refine ⟨fs.writeNamed held.place node t, by rw [FileSystem.writeStore, isNamed], holds.isOpen, ?_⟩
  have below := ne_nil_of_file found
  exact ⟨_, entry?_stamp_of_file (entry?_put_self fs below _), number, rfl⟩

/-- Only a store that its name leads to is written. -/
theorem writeStore_puts {fs fs' : FileSystem} (wf : fs.WellFormed) {held : OpenStore}
    {s t : GraphStore} (read : fs.readStore held = .ok s)
    (written : fs.writeStore held t = .ok fs') :
    fs.storeAt held.place = some s ∧ Puts (PutsStore held.place t) fs fs' := by
  unfold writeStore at written
  cases isNamed : fs.named? held with
  | none =>
    rw [isNamed] at written
    cases written
  | some node =>
    rw [isNamed] at written
    cases written
    obtain ⟨found, number⟩ := named?_eq_some.mp isNamed
    have content : node.content = .store s := by
      unfold readStore at read
      rw [held?, isNamed] at read
      split at read
      · cases read
      · obtain ⟨n, c, content⟩ := node
        cases content with
        | data d => cases read
        | store other =>
          cases read
          rfl
    have below := ne_nil_of_file found
    have named : held.place.getLast? = some storeName := by
      have allowed := wf.allowed _ _ (mem_entries_of_entry below found)
      obtain ⟨n, c, content⟩ := node
      cases content
      exact allowed
    refine ⟨?_, writeNamed_puts wf found named t⟩
    rw [storeAt, found]
    obtain ⟨n, c, content⟩ := node
    cases content
    rfl

/-- A hold can be written, which keeps a file system well formed. -/
theorem Holds.write {fs : FileSystem} (wf : fs.WellFormed) {held : OpenStore} {s : GraphStore}
    (holds : fs.Holds held s) (t : GraphStore) :
    ∃ fs', fs.writeStore held t = .ok fs' ∧ fs'.WellFormed ∧ fs'.Holds held t := by
  obtain ⟨fs', written, holds'⟩ := holds.writeStore t
  exact ⟨fs', written, (writeStore_puts wf holds.readStore written).2.wellFormed wf, holds'⟩

/-! ## Opening -/

/-- The place of the store in a directory of a project. -/
def storePlace (root : Path) (directory : Text) : Place :=
  Path.fold ((root.join (.ofText directory)).child storeName).names

theorem openStoreAt_puts {fs : FileSystem} (wf : fs.WellFormed) {names : List Text} {place : Place}
    {found : Option Entry} (targeted : fs.target (names ++ [storeName]) = .ok (place, found)) :
    Puts (PutsStore place {}) fs (fs.openStoreAt place).1 := by
  obtain ⟨short, followed, -⟩ := target_eq_ok_iff.mp targeted
  obtain ⟨parent, -, entered⟩ := follow_concat followed
  obtain ⟨-, -, -, child⟩ := enter_eq_ok_iff.mp entered
  have named : place.getLast? = some storeName := by
    have notUp : storeName ≠ Path.up := by decide
    rw [child, Path.foldStep, if_neg notUp, List.getLast?_concat]
  unfold openStoreAt
  split
  · exact .nil
  · rename_i node found
    split
    · exact .nil
    · split
      · exact .nil
      · split
        · exact writeNamed_puts wf found named {}
        · exact .nil
  · rename_i missing
    have fits : fs.Fits place (.file ⟨fs.clock, fs.now, .store {}⟩) :=
      fits_of_none wf short followed missing named
    exact add_puts wf fits (.inr ⟨rfl, named, rfl⟩) fun _ _ => .inl

theorem place_of_target {fs : FileSystem} {root : Path} {directory : Text} {place : Place}
    {found : Option Entry}
    (targeted : fs.target ((root.join (.ofText directory)).child storeName).names =
      .ok (place, found)) : place = storePlace root directory :=
  follow_eq_foldl (target_eq_ok_iff.mp targeted).2.1

/-- **Opening** a store puts directories and at most an empty store, whether or not it succeeds. -/
theorem openStore_puts {fs : FileSystem} (wf : fs.WellFormed) (root : Path) (directory : Text) :
    Puts (PutsStore (storePlace root directory) {}) fs (fs.openStore root directory).1 := by
  unfold openStore
  have made := makeDirectories_puts wf (root.join (.ofText directory))
  dsimp only
  split
  · rename_i fs' e isMade
    rw [isMade] at made
    exact made.mono fun _ _ => .inl
  · rename_i fs' isMade
    rw [isMade] at made
    split
    · rename_i place found targeted
      have same := place_of_target targeted
      subst same
      exact (made.mono fun _ _ => .inl).trans (openStoreAt_puts (made.wellFormed wf) targeted)
    · exact made.mono fun _ _ => .inl

/-- Files stay where they are when directories are put. -/
theorem Puts.file_of_directories {fs fs' : FileSystem} (steps : Puts PutsDirectory fs fs')
    {place : Place} {node : FileNode} (found : fs.entry? place = some (.file node)) :
    fs'.entry? place = some (.file node) := by
  induction steps with
  | nil => exact found
  | @put fs' other entry _ fits isDirectory ih =>
    have differs : place ≠ other := by
      rintro rfl
      have kind := fits.sameKind _ ih
      rw [isDirectory] at kind
      simp [Entry.node?] at kind
    rw [entry?_put_of_ne fs' differs, ih]

/-- So do stores. -/
theorem Puts.storeAt_of_directories {fs fs' : FileSystem} (steps : Puts PutsDirectory fs fs')
    (place : Place) : fs'.storeAt place = fs.storeAt place := by
  apply Option.ext
  intro s
  constructor
  · exact (steps.mono fun _ _ => PutsKnown.of_directory).keepsStores place s
  · intro found
    obtain ⟨entry, isEntry, isStore⟩ := Option.bind_eq_some_iff.mp found
    cases entry with
    | directory number changed => cases isStore
    | file node =>
      rw [storeAt, steps.file_of_directories isEntry]
      exact isStore

/-- The store at a place, if it can be opened, is the one that stands there or a new one. -/
theorem openStoreAt_holds {fs fs' : FileSystem} {place : Place} {held : OpenStore}
    (opened : fs.openStoreAt place = (fs', .ok held)) :
    held.place = place ∧ fs'.Holds held ((fs.storeAt place).getD {}) := by
  unfold openStoreAt at opened
  unfold storeAt
  split at opened
  · cases opened
  · rename_i node found
    have below := ne_nil_of_file found
    obtain ⟨number, changed, content⟩ := node
    rw [found]
    split at opened
    · cases opened
    · cases content with
      | store s =>
        cases opened
        exact ⟨rfl, rfl, _, found, rfl, rfl⟩
      | data d =>
        dsimp only at opened
        split at opened
        · cases opened
          exact ⟨rfl, rfl, _, entry?_stamp_of_file (entry?_put_self fs below _), rfl, rfl⟩
        · cases opened
  · rename_i missing
    have below := ne_nil_of_missing missing
    rw [missing]
    cases opened
    exact ⟨rfl, rfl, _, entry?_stamp_of_file (entry?_put_self fs below _), rfl, rfl⟩

/-- **A store that was opened** is held at its place, with what it held or new. -/
theorem openStore_holds {fs fs' : FileSystem} (wf : fs.WellFormed) {root : Path} {directory : Text}
    {held : OpenStore} (opened : fs.openStore root directory = (fs', .ok held)) :
    held.place = storePlace root directory ∧
      fs'.Holds held ((fs.storeAt (storePlace root directory)).getD {}) := by
  have made := makeDirectories_puts wf (root.join (.ofText directory))
  unfold openStore at opened
  dsimp only at opened
  split at opened
  · cases opened
  · rename_i disk isMade
    rw [isMade] at made
    split at opened
    · rename_i place found targeted
      have same := place_of_target targeted
      subst same
      rw [← made.storeAt_of_directories]
      exact openStoreAt_holds opened
    · cases opened

/-! ## Keeping and dropping graphs -/

theorem ok_of_bind {ε α β : Type} {x : Except ε α} {f : α → Except ε β} {b : β}
    (result : x >>= f = .ok b) : ∃ a, x = .ok a ∧ f a = .ok b := by
  cases x with
  | error e => cases result
  | ok a => exact ⟨a, rfl, result⟩

theorem ok_of_mapError {ε ε' α : Type} {x : Except ε α} {f : ε → ε'} {a : α}
    (result : x.mapError f = .ok a) : x = .ok a := by
  cases x with
  | error e => cases result
  | ok b =>
    cases result
    rfl

theorem text_of_storeKey {path : Path} {key : Text} (isKey : storeKey path = .ok key) :
    key = path.text := by
  unfold storeKey at isKey
  split at isKey
  · cases isKey
  · cases isKey
    rfl

/-- **Keeping** a graph keeps its text under the path, with the mark that the file has. -/
theorem keepGraph_cases {fs fs' : FileSystem} {held : OpenStore} {path : Path}
    {g : ModuleGraph Json} (kept : fs.keepGraph held path g = .ok fs') :
    fs' = fs ∨ ∃ mark s, fs.mark path = .ok (some mark) ∧ fs.readStore held = .ok s ∧
      fs.writeStore held (s.keep path.text mark g.toJson.render) = .ok fs' := by
  obtain ⟨mark, marked, kept⟩ := ok_of_bind kept
  cases mark with
  | none =>
    cases kept
    exact .inl rfl
  | some mark =>
    obtain ⟨s, read, kept⟩ := ok_of_bind kept
    obtain ⟨key, isKey, kept⟩ := ok_of_bind kept
    cases text_of_storeKey isKey
    exact .inr ⟨mark, s, ok_of_mapError marked, read, kept⟩

/-- Keeping a graph writes the store with its text. -/
theorem Holds.keepGraph {fs : FileSystem} {held : OpenStore} {s : GraphStore}
    (holds : fs.Holds held s) {path : Path} {mark : Mark} {key : Text}
    (marked : fs.mark path = .ok (some mark)) (isKey : storeKey path = .ok key)
    (g : ModuleGraph Json) :
    fs.keepGraph held path g = fs.writeStore held (s.keep key mark g.toJson.render) := by
  simp only [FileSystem.keepGraph, markOf, marked, holds.readStore, isKey]
  rfl

/-- **Dropping** a graph writes the store without it, or nothing. -/
theorem dropGraph_cases {fs fs' : FileSystem} {held : OpenStore} {path : Path}
    (dropped : fs.dropGraph held path = .ok fs') :
    fs' = fs ∨ ∃ s, fs.readStore held = .ok s ∧
      fs.writeStore held (s.drop path.text) = .ok fs' := by
  obtain ⟨s, read, dropped⟩ := ok_of_bind dropped
  obtain ⟨key, isKey, dropped⟩ := ok_of_bind dropped
  cases text_of_storeKey isKey
  split at dropped
  · exact .inr ⟨s, read, dropped⟩
  · cases dropped
    exact .inl rfl

theorem clearStore_cases {fs fs' : FileSystem} {held : OpenStore}
    (cleared : fs.clearStore held = .ok fs') :
    ∃ s, fs.readStore held = .ok s ∧ fs.writeStore held {} = .ok fs' :=
  ok_of_bind cleared

end FileSystem

end JsxOrigin
