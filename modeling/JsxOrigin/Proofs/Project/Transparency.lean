import JsxOrigin.Proofs.Project.KeptGraphs

/-!
# Kept graphs do not show

Keeping graphs saves work and changes no answer. Two scans of one disk, one of which uses the store
of the project, find the same files, skip the same files, and register the same graphs up to joined
surrogate pairs, whatever happened to the disk before: files made, changed and removed, scans of
either kind, and stores opened, cleared and asked to forget a file.

The invariant of such a history is that the disk is well formed and that its store, if it has one,
is truthful (`Sound`): one step of any kind keeps it (`ProjectEvent.apply_sound`), and so does a
whole history (`ProjectEvent.after_sound`). During a scan the plain files do not change either
(`Scan.Underway`), which is why both scans see the same sources. No file is sealed on the way, so
one whose graph is kept can still be read (`ProjectEvent.after_sealed`).

**The law** (`Scan.run_agree`): after every history in which a path never shows one mark with two
contents, a scan with the store and a scan without it agree, if the store can be opened and takes
the paths for keys. Where it cannot be opened they differ (`Scan.run_differ_blockedStore`).
-/

namespace JsxOrigin

open FileSystem

variable {known : Path → Mark → FileData → Prop} {root : Path} {place : Place}

/-! ## Sound disks -/

/-- A well-formed disk with nothing but truth in the store at a place. -/
structure Sound (known : Path → Mark → FileData → Prop) (root : Path) (place : Place)
    (fs : FileSystem) : Prop where
  wellFormed : fs.WellFormed
  truthful : ∀ s, fs.storeAt place = some s → s.Truthful known root

theorem Sound.of_keepsStores {fs fs' : FileSystem} (sound : Sound known root place fs)
    (wf : fs'.WellFormed) (keeps : fs.KeepsStores fs') : Sound known root place fs' :=
  ⟨wf, fun s found => sound.truthful s (keeps place s found)⟩

/-- A disk stays sound when a store is put that is truthful or elsewhere. -/
theorem Sound.of_puts {fs fs' : FileSystem} (sound : Sound known root place fs) {p : Place}
    {t : GraphStore} (steps : Puts (PutsStore p t) fs fs')
    (truthful : p = place → t.Truthful known root) : Sound known root place fs' := by
  refine ⟨steps.wellFormed sound.wellFormed, ?_⟩
  intro s found
  rcases steps.storeAt_of_store found with before | ⟨same, rfl⟩
  · exact sound.truthful s before
  · exact truthful same.symm

theorem Sound.writeStore {fs fs' : FileSystem} (sound : Sound known root place fs)
    {held : OpenStore} {s t : GraphStore} (read : fs.readStore held = .ok s)
    (written : fs.writeStore held t = .ok fs')
    (truthful : s.Truthful known root → t.Truthful known root) : Sound known root place fs' := by
  obtain ⟨before, steps⟩ := writeStore_puts sound.wellFormed read written
  apply sound.of_puts steps
  intro same
  exact truthful (sound.truthful s (same ▸ before))

/-! ## During a scan -/

namespace Scan

/-- The disk while a scan is under way that started on `start`. -/
structure Underway (known : Path → Mark → FileData → Prop) (root : Path) (place : Place)
    (start fs : FileSystem) : Prop where
  sound : Sound known root place fs
  plain : fs.plainFiles = start.plainFiles
  sameSeals : fs.sealed = start.sealed

theorem puts_aside {p : Place} {t : GraphStore} {fs fs' : FileSystem}
    (steps : Puts (PutsStore p t) fs fs') : Puts PutsAside fs fs' :=
  steps.mono fun _ _ isKind => isKind.imp_right fun ⟨same, named, _⟩ => same ▸ named

variable {start : FileSystem}

theorem Underway.keepGraph {fs fs' : FileSystem} (underway : Underway known root place start fs)
    {held : OpenStore} {names : List Text} {mark : Mark} {d : FileData}
    (attested : GraphStore.Attested known root names mark d)
    (marked : fs.mark (absolute root names) = .ok (some mark))
    (kept :
      fs.keepGraph held (absolute root names) (SourceModule.ofData names d).scanned = .ok fs') :
    Underway known root place start fs' := by
  rcases keepGraph_cases kept with rfl | ⟨m, s, isMark, read, written⟩
  · exact underway
  · rw [marked] at isMark
    cases isMark
    obtain ⟨-, steps⟩ := writeStore_puts underway.sound.wellFormed read written
    refine ⟨underway.sound.writeStore read written fun truthful => truthful.keep attested, ?_, ?_⟩
    · rw [(puts_aside steps).plainFiles_eq underway.sound.wellFormed, underway.plain]
    · rw [steps.sealed_eq, underway.sameSeals]

/-! ### One visit -/

/-- The graph that is kept for a path, if a store is used. -/
def keptFor (store : Option OpenStore) (fs : FileSystem) (path : Path) :
    Except Failure (Option (ModuleGraph Json)) :=
  match store with
  | some held => (fs.keptGraph held path).mapError .store
  | none => .ok none

/-- Keeps a graph, if a store is used. -/
def keepFor (store : Option OpenStore) (fs : FileSystem) (path : Path) (g : ModuleGraph Json) :
    Except Failure FileSystem :=
  match store with
  | some held => (fs.keepGraph held path g).mapError .store
  | none => .ok fs

/-- A scan after a file whose graph was kept. -/
def reuse (names : List Text) (g : ModuleGraph Json) (s : Scan) : Scan :=
  { s.register names g with cached := s.cached + 1, visited := s.visited ++ [shown names] }

/-- A scan after a file that is no module. -/
def skip (names : List Text) (s : Scan) : Scan :=
  { s with skipped := s.skipped ++ [shown names], visited := s.visited ++ [shown names] }

/-- A scan after a file that was analysed. -/
def record (names : List Text) (g : ModuleGraph Json) (files : FileSystem) (s : Scan) : Scan :=
  { s.register names g with
    analyzed := s.analyzed + 1, visited := s.visited ++ [shown names], files }

/-- A visit, without the continuations that a choice of stores would repeat. -/
theorem visit_eq (root : Path) (store : Option OpenStore) (names : List Text) (s : Scan) :
    s.visit root store names =
      (keptFor store s.files (absolute root names) >>= fun kept =>
        match kept with
        | some g => .ok (s.reuse names g)
        | none =>
          (s.files.module? (absolute root names) (shown names)).mapError .file >>= fun found =>
            match found with
            | none => .ok (s.skip names)
            | some m =>
              keepFor store s.files (absolute root names) m.scanned >>= fun files =>
                .ok (s.record names m.scanned files)) := by
  cases store <;> rfl

/-- A visit changes the disk only by keeping the graph of a module. -/
theorem visit_files {store : Option OpenStore} {names : List Text} {s s' : Scan}
    (visited : s.visit root store names = .ok s') :
    s'.files = s.files ∨
      ∃ held m, s.files.module? (absolute root names) (shown names) = .ok (some m) ∧
        s.files.keepGraph held (absolute root names) m.scanned = .ok s'.files := by
  rw [visit_eq] at visited
  obtain ⟨kept, -, visited⟩ := ok_of_bind visited
  cases kept with
  | some g =>
    cases visited
    exact .inl rfl
  | none =>
    obtain ⟨found, isFound, visited⟩ := ok_of_bind visited
    cases found with
    | none =>
      cases visited
      exact .inl rfl
    | some m =>
      obtain ⟨files, isFiles, visited⟩ := ok_of_bind visited
      cases visited
      cases store with
      | none =>
        cases isFiles
        exact .inl rfl
      | some held => exact .inr ⟨held, m, ok_of_mapError isFound, ok_of_mapError isFiles⟩

/-- What both kinds of scan rely on: a source file of the disk that a scan started on stands there
with the same data as long as the scan is under way. -/
theorem source_underway (wf : start.WellFormed) (isKnown : start.KnownBy known)
    {names excluded : List Text} (found : names ∈ start.sourceFiles root excluded) :
    root.names ++ names ≠ [] ∧ Path.up ∉ root.names ++ names ∧
      (∀ name ∈ root.names ++ names, .scalar '/' ∉ name) ∧
      ∃ mark d, (start.sealed.contains (root.names ++ names) = false →
          known (absolute root names) mark d) ∧
        ∀ fs, Underway known root place start fs →
          fs.Stands (absolute root names) (root.names ++ names) mark d := by
  obtain ⟨below, folded, fileNames, mark, d, stands⟩ := sourceFiles_stand wf found
  refine ⟨below, folded, fun name mem => (fileNames name mem).1, mark, d, ?_, ?_⟩
  · intro unsealed
    exact isKnown _ _ _ ((stands start wf rfl).shows unsealed)
  · intro fs underway
    exact stands fs underway.sound.wellFormed underway.plain

/-- Whether a source file is a module: it is in a known language and not sealed. -/
def isModule (fs : FileSystem) (root : Path) (names : List Text) : Bool :=
  (Language.ofPath? (absolute root names)).isSome && !fs.sealed.contains (root.names ++ names)

theorem Underway.module?_eq {fs : FileSystem} (underway : Underway known root place start fs)
    {names : List Text} {mark : Mark} {d : FileData}
    (stands : fs.Stands (absolute root names) (root.names ++ names) mark d) :
    fs.module? (absolute root names) (shown names) =
      .ok (if isModule start root names then some (SourceModule.ofData names d) else none) := by
  rw [FileSystem.module?_eq stands, underway.sameSeals, isModule]

theorem visit_underway (wf : start.WellFormed) (isKnown : start.KnownBy known)
    {store : Option OpenStore} {names excluded : List Text}
    (found : names ∈ start.sourceFiles root excluded) {s s' : Scan}
    (underway : Underway known root place start s.files)
    (visited : s.visit root store names = .ok s') : Underway known root place start s'.files := by
  obtain ⟨below, -, clean, mark, d, isShown, stands⟩ := source_underway wf isKnown found
  rcases visit_files visited with same | ⟨held, m, isModule, kept⟩
  · rwa [same]
  · have standsNow := stands s.files underway
    rw [underway.module?_eq standsNow] at isModule
    split at isModule
    · rename_i readable
      cases isModule
      obtain ⟨language, unsealed⟩ := Bool.and_eq_true_iff.mp readable
      have attested : GraphStore.Attested known root names mark d :=
        ⟨below, clean, language, isShown (by simpa using unsealed)⟩
      exact underway.keepGraph attested standsNow.mark kept
    · cases isModule

theorem visitAll_underway (wf : start.WellFormed)
    (isKnown : start.KnownBy known)
    {store : Option OpenStore} {excluded : List Text} {files : List (List Text)}
    (found : ∀ names ∈ files, names ∈ start.sourceFiles root excluded) {s : Scan}
    (underway : Underway known root place start s.files) :
    Underway known root place start (visitAll root store files s).1.files := by
  induction files generalizing s with
  | nil => exact underway
  | cons names rest ih =>
    rw [visitAll]
    split
    · rename_i s' visited
      exact ih (fun n mem => found n (List.mem_cons_of_mem _ mem))
        (visit_underway wf isKnown (found names List.mem_cons_self) underway visited)
    · exact underway

/-! ### Whole scans -/

theorem run_uncached (fs : FileSystem) (env : Environment) (root : Path) :
    run fs env root false =
      visitAll root none (fs.sourceFiles root (Settings.excluded env)) { files := fs } := rfl

theorem run_cached {fs fs' : FileSystem} {env : Environment} {held : OpenStore}
    (opened : fs.openStore root (Settings.cacheDirectory env) = (fs', .ok held)) :
    run fs env root true =
      visitAll root (some held) (fs'.sourceFiles root (Settings.excluded env))
        { files := fs' } := by
  simp only [run, fill, if_true, opened]
  rfl

theorem run_refused {fs fs' : FileSystem} {env : Environment} {e : StoreError}
    (refused : fs.openStore root (Settings.cacheDirectory env) = (fs', .error e)) :
    run fs env root true = ({ files := fs' }, some (.store e)) := by
  simp only [run, fill, if_true, refused]
  rfl

/-- The disk once a store of a project was opened, at the place or elsewhere. -/
theorem underway_openStore {fs : FileSystem} (sound : Sound known root place fs)
    (directory : Text) : Underway known root place fs (fs.openStore root directory).1 := by
  have steps := openStore_puts sound.wellFormed root directory
  exact ⟨sound.of_puts steps fun _ => GraphStore.truthful_empty,
    (puts_aside steps).plainFiles_eq sound.wellFormed, steps.sealed_eq⟩

theorem underway_of_openStore {fs : FileSystem} {directory : Text}
    (sound : Sound known root (storePlace root directory) fs) :
    Underway known root (storePlace root directory) fs (fs.openStore root directory).1 :=
  underway_openStore sound directory

/-- Opening a store changes nothing about the source files. -/
theorem sourceFiles_of_plain {fs fs' : FileSystem} (same : fs'.plainFiles = fs.plainFiles)
    (root : Path) (excluded : List Text) :
    fs'.sourceFiles root excluded = fs.sourceFiles root excluded := by
  rw [sourceFiles_eq, sourceFiles_eq, same]

/-- **A scan** of either kind leaves a sound disk behind, wherever it stops. -/
theorem run_underway {fs : FileSystem} {env : Environment} (sound : Sound known root place fs)
    (isKnown : fs.KnownBy known) (useCache : Bool) :
    Underway known root place fs (run fs env root useCache).1.files := by
  cases useCache with
  | false =>
    rw [run_uncached]
    exact visitAll_underway sound.wellFormed isKnown (fun _ mem => mem) ⟨sound, rfl, rfl⟩
  | true =>
    have underway := underway_openStore sound (Settings.cacheDirectory env)
    cases opened : fs.openStore root (Settings.cacheDirectory env) with
    | mk fs' result =>
      rw [opened] at underway
      cases result with
      | error e =>
        rw [run_refused opened]
        exact underway
      | ok held =>
        rw [run_cached opened, sourceFiles_of_plain underway.plain]
        exact visitAll_underway sound.wellFormed isKnown (fun _ mem => mem) underway

end Scan

/-! ## Histories -/

/-- What can happen to the disk of a project. -/
inductive ProjectEvent where
  | makeDirectories (path : Text)
  | write (path : Text) (data : FileData) (changed : Time)
  | touch (path : Text) (changed : Time)
  | remove (path : Text)
  /-- The store of the project is opened. -/
  | openStore
  /-- A store is cleared by whoever holds it. -/
  | clearStore (held : OpenStore)
  /-- A store forgets a file. -/
  | dropGraph (held : OpenStore) (path : Path)
  | scan (useCache : Bool)

namespace ProjectEvent

/-- The disk after an event. What is refused changes nothing, but directories that were made on the
way and graphs that were kept before a scan failed stay. -/
def apply (root : Path) (env : Environment) (fs : FileSystem) : ProjectEvent → FileSystem
  | makeDirectories path => (fs.makeDirectories (.ofText path)).1
  | write path data changed => (fs.write (.ofText path) data changed).toOption.getD fs
  | touch path changed => (fs.touch (.ofText path) changed).toOption.getD fs
  | remove path => (fs.remove (.ofText path)).toOption.getD fs
  | openStore => (fs.openStore root (Settings.cacheDirectory env)).1
  | clearStore held => (fs.clearStore held).toOption.getD fs
  | dropGraph held path => (fs.dropGraph held path).toOption.getD fs
  | scan useCache => (Scan.run fs env root useCache).1.files

/-- The disk after a history. -/
def after (root : Path) (env : Environment) (fs : FileSystem) (events : List ProjectEvent) :
    FileSystem :=
  events.foldl (apply root env) fs

/-- The disks that a history goes through, the first and the last one included. -/
def disks (root : Path) (env : Environment) (fs : FileSystem) : List ProjectEvent → List FileSystem
  | [] => [fs]
  | e :: rest => fs :: disks root env (e.apply root env fs) rest

theorem sound_getD {fs : FileSystem} {ε : Type} (sound : Sound known root place fs)
    {result : Except ε FileSystem} (step : ∀ fs', result = .ok fs' → Sound known root place fs') :
    Sound known root place (result.toOption.getD fs) := by
  cases result with
  | error e => exact sound
  | ok fs' => exact step fs' rfl

theorem sealed_getD {fs : FileSystem} {ε : Type} {result : Except ε FileSystem}
    (step : ∀ fs', result = .ok fs' → fs'.sealed ⊆ fs.sealed) :
    (result.toOption.getD fs).sealed ⊆ fs.sealed := by
  cases result with
  | error e => exact List.Subset.refl _
  | ok fs' => exact step fs' rfl

/-- **One step.** An event leaves a sound disk behind, if what the disk shows before it is known. -/
theorem apply_sound {fs : FileSystem} (env : Environment) (sound : Sound known root place fs)
    (isKnown : fs.KnownBy known) (e : ProjectEvent) :
    Sound known root place (e.apply root env fs) := by
  have wf := sound.wellFormed
  cases e with
  | makeDirectories path =>
    have steps := makeDirectories_puts wf (.ofText path)
    exact sound.of_keepsStores (steps.wellFormed wf)
      (steps.mono fun _ _ => .of_directory).keepsStores
  | write path data changed =>
    apply sound_getD sound
    intro fs' written
    have steps := write_puts wf (fun _ mem => Path.slash_not_mem_ofText mem) written
    exact sound.of_keepsStores (steps.wellFormed wf) steps.keepsStores
  | touch path changed =>
    apply sound_getD sound
    intro fs' touched
    have steps := touch_puts wf touched
    exact sound.of_keepsStores (steps.wellFormed wf) steps.keepsStores
  | remove path =>
    apply sound_getD sound
    intro fs' gone
    obtain ⟨wf', keeps⟩ := remove_wellFormed wf gone
    exact sound.of_keepsStores wf' keeps
  | openStore => exact (Scan.underway_openStore sound _).sound
  | clearStore held =>
    apply sound_getD sound
    intro fs' cleared
    obtain ⟨s, read, written⟩ := clearStore_cases cleared
    exact sound.writeStore read written fun _ => GraphStore.truthful_empty
  | dropGraph held path =>
    apply sound_getD sound
    intro fs' dropped
    rcases dropGraph_cases dropped with rfl | ⟨s, read, written⟩
    · exact sound
    · exact sound.writeStore read written fun truthful => truthful.drop _
  | scan useCache => exact (Scan.run_underway sound isKnown useCache).sound

/-- **A whole history** leaves a sound disk behind, if what the disks show on the way is known. -/
theorem after_sound {fs : FileSystem} {env : Environment} {events : List ProjectEvent}
    (sound : Sound known root (storePlace root (Settings.cacheDirectory env)) fs)
    (isKnown : ∀ disk ∈ disks root env fs events, disk.KnownBy known) :
    Sound known root (storePlace root (Settings.cacheDirectory env))
      (after root env fs events) := by
  induction events generalizing fs with
  | nil => exact sound
  | cons e rest ih =>
    have next := apply_sound env sound (isKnown fs List.mem_cons_self) e
    exact ih next fun disk mem => isKnown disk (List.mem_cons_of_mem _ mem)

/-- An event seals no file. -/
theorem apply_sealed {fs : FileSystem} (env : Environment) (sound : Sound known root place fs)
    (isKnown : fs.KnownBy known) (e : ProjectEvent) :
    (e.apply root env fs).sealed ⊆ fs.sealed := by
  have wf := sound.wellFormed
  cases e with
  | makeDirectories path => exact (makeDirectories_puts wf (.ofText path)).sealed_subset
  | write path data changed =>
    apply sealed_getD
    intro fs' written
    exact (write_puts wf (fun _ mem => Path.slash_not_mem_ofText mem) written).sealed_subset
  | touch path changed =>
    apply sealed_getD
    intro fs' touched
    exact (touch_puts wf touched).sealed_subset
  | remove path =>
    apply sealed_getD
    intro fs' gone
    exact remove_sealed wf gone
  | openStore => exact (openStore_puts wf root (Settings.cacheDirectory env)).sealed_subset
  | clearStore held =>
    apply sealed_getD
    intro fs' cleared
    obtain ⟨s, read, written⟩ := clearStore_cases cleared
    exact (writeStore_puts wf read written).2.sealed_subset
  | dropGraph held path =>
    apply sealed_getD
    intro fs' dropped
    rcases dropGraph_cases dropped with rfl | ⟨s, read, written⟩
    · exact List.Subset.refl _
    · exact (writeStore_puts wf read written).2.sealed_subset
  | scan useCache =>
    rw [apply, (Scan.run_underway sound isKnown useCache).sameSeals]
    exact List.Subset.refl _

theorem first_mem_disks (root : Path) (env : Environment) (fs : FileSystem)
    (events : List ProjectEvent) : fs ∈ disks root env fs events := by
  cases events <;> exact List.mem_cons_self

/-- What may be read on the way may be read at the end. -/
theorem after_sealed {fs : FileSystem} {env : Environment} {events : List ProjectEvent}
    (sound : Sound known root place fs)
    (isKnown : ∀ disk ∈ disks root env fs events, disk.KnownBy known) :
    ∀ disk ∈ disks root env fs events, (after root env fs events).sealed ⊆ disk.sealed := by
  induction events generalizing fs with
  | nil =>
    intro disk mem
    rw [List.mem_singleton.mp mem]
    exact List.Subset.refl _
  | cons e rest ih =>
    have first := isKnown fs List.mem_cons_self
    have later := ih (apply_sound env sound first e) fun disk mem =>
      isKnown disk (List.mem_cons_of_mem _ mem)
    intro disk mem
    rcases List.mem_cons.mp mem with rfl | mem
    · exact List.Subset.trans (later _ (first_mem_disks root env _ rest))
        (apply_sealed env sound first e)
    · exact later disk mem

theorem after_mem_disks (root : Path) (env : Environment) (fs : FileSystem)
    (events : List ProjectEvent) : after root env fs events ∈ disks root env fs events := by
  induction events generalizing fs with
  | nil => exact List.mem_singleton_self _
  | cons e rest ih => exact List.mem_cons_of_mem _ (ih _)

end ProjectEvent

/-! ## Two scans side by side -/

/-- A registry with the surrogate pairs in the fields of its graphs joined. -/
def Registry.joined (r : Registry) : Registry := r.map fun e => (e.1, e.2.map Json.joined)

theorem Registry.joined_put (file : Text) (g : ModuleGraph Json) (r : Registry) :
    (r.put file g).joined = r.joined.put file (g.map Json.joined) :=
  Table.map_set _ file g r

namespace Scan

/-- Whether two scans have come to the same answers. -/
structure Agree (s t : Scan) : Prop where
  found : s.found = t.found
  skipped : s.skipped = t.skipped
  registry : s.registry.joined = t.registry.joined

theorem Agree.skip {s t : Scan} (agree : Agree s t) (names : List Text) :
    Agree (s.skip names) (t.skip names) :=
  ⟨agree.found, congrArg (· ++ [shown names]) agree.skipped, agree.registry⟩

theorem registry_put {s t : Scan} (agree : Agree s t) (names : List Text) {g h : ModuleGraph Json}
    (same : g.map Json.joined = h.map Json.joined) :
    (s.registry.put (shown names) g).joined = (t.registry.put (shown names) h).joined := by
  rw [Registry.joined_put, Registry.joined_put, agree.registry, same]

theorem Agree.record {s t : Scan} (agree : Agree s t) (names : List Text) (g : ModuleGraph Json)
    (fs fs' : FileSystem) : Agree (s.record names g fs) (t.record names g fs') :=
  ⟨congrArg (· ++ [shown names]) agree.found, agree.skipped, registry_put agree names rfl⟩

theorem Agree.reuse {s t : Scan} (agree : Agree s t) (names : List Text) {g h : ModuleGraph Json}
    (same : g.map Json.joined = h.map Json.joined) (fs : FileSystem) :
    Agree (s.reuse names g) (t.record names h fs) :=
  ⟨congrArg (· ++ [shown names]) agree.found, agree.skipped, registry_put agree names same⟩

variable {start : FileSystem}

/-- Whether what is known to have been shown can still be read. -/
def StaysReadable (known : Path → Mark → FileData → Prop) (start : FileSystem) : Prop :=
  ∀ path mark d, known path mark d → Path.up ∉ path.names → path.names ∉ start.sealed

/-- One file, looked at by a scan with a store and by one without. -/
theorem visit_agree (sound : Sound known root place start) (isKnown : start.KnownBy known)
    (unambiguous : Unambiguous known) (stays : StaysReadable known start)
    {names excluded : List Text} (found : names ∈ start.sourceFiles root excluded)
    (encodable : (absolute root names).text.hasSurrogate = false) {s t : Scan} {held : OpenStore}
    {kept : GraphStore} (underway : Underway known root place start s.files)
    (holds : s.files.Holds held kept) (atPlace : held.place = place) (unchanged : t.files = start)
    (agree : Agree s t) :
    ∃ s' t' kept', s.visit root (some held) names = .ok s' ∧ t.visit root none names = .ok t' ∧
      Underway known root place start s'.files ∧ s'.files.Holds held kept' ∧ t'.files = start ∧
      Agree s' t' := by
  obtain ⟨below, folded, clean, mark, d, isShown, stands⟩ :=
    source_underway sound.wellFormed isKnown found
  have standsHere := stands s.files underway
  have plain : Underway known root place start t.files := by
    rw [unchanged]
    exact ⟨sound, rfl, rfl⟩
  have truthful : kept.Truthful known root :=
    underway.sound.truthful kept (atPlace ▸ holds.storeAt)
  rw [visit_eq, visit_eq, underway.module?_eq standsHere, plain.module?_eq (stands t.files plain)]
  cases readable : isModule start root names with
  | false =>
    -- a kept graph would be that of a module
    have nothing : s.files.keptGraph held (absolute root names) = .ok none := by
      rcases keptGraph_cases truthful holds.readStore below clean encodable standsHere.mark with
        ⟨-, nothing⟩ | ⟨d', attested, -⟩
      · exact nothing
      · have unsealed := stays _ _ _ attested.shown folded
        simp [isModule, attested.language] at readable
        exact absurd readable unsealed
    refine ⟨s.skip names, t.skip names, kept, ?_, rfl, underway, holds, unchanged, agree.skip names⟩
    rw [keptFor, nothing]
    rfl
  | true =>
    let g := (SourceModule.ofData names d).scanned
    obtain ⟨language, unsealed⟩ := Bool.and_eq_true_iff.mp readable
    have known := isShown (by simpa using unsealed)
    rcases keptGraph_eq unambiguous truthful holds.readStore below clean encodable standsHere.mark
      known with nothing | ⟨-, reused⟩
    · -- the graph is made and kept
      obtain ⟨fs', keptNow, holds'⟩ := keepGraph_of_holds holds encodable standsHere.mark g
      refine ⟨s.record names g fs', t.record names g t.files, _, ?_, rfl,
        underway.keepGraph ⟨below, clean, language, known⟩ standsHere.mark keptNow, holds',
        unchanged, agree.record names g _ _⟩
      rw [keptFor, nothing]
      show keepFor (some held) s.files _ g >>= _ = _
      rw [keepFor, keptNow]
      rfl
    · -- the graph that is kept differs by joined pairs at most
      refine ⟨s.reuse names (g.map Json.joined), t.record names g t.files, kept, ?_, rfl, underway,
        holds, unchanged, agree.reuse names (SourceModule.joined_scanned _) _⟩
      rw [keptFor, reused]
      rfl

/-- Any number of files. -/
theorem visitAll_agree (sound : Sound known root place start) (isKnown : start.KnownBy known)
    (unambiguous : Unambiguous known) (stays : StaysReadable known start) {excluded : List Text}
    {files : List (List Text)}
    (found : ∀ names ∈ files, names ∈ start.sourceFiles root excluded)
    (encodable : ∀ names ∈ files, (absolute root names).text.hasSurrogate = false) {s t : Scan}
    {held : OpenStore} {kept : GraphStore} (underway : Underway known root place start s.files)
    (holds : s.files.Holds held kept) (atPlace : held.place = place) (unchanged : t.files = start)
    (agree : Agree s t) :
    (visitAll root (some held) files s).2 = none ∧ (visitAll root none files t).2 = none ∧
      Agree (visitAll root (some held) files s).1 (visitAll root none files t).1 := by
  induction files generalizing s t kept with
  | nil => exact ⟨rfl, rfl, agree⟩
  | cons names rest ih =>
    obtain ⟨s', t', kept', here, there, underway', holds', unchanged', agree'⟩ :=
      visit_agree sound isKnown unambiguous stays (found names List.mem_cons_self)
        (encodable names List.mem_cons_self) underway holds atPlace unchanged agree
    simp only [visitAll, here, there]
    exact ih (fun n mem => found n (List.mem_cons_of_mem _ mem))
      (fun n mem => encodable n (List.mem_cons_of_mem _ mem)) underway' holds' unchanged' agree'

/-- **The store does not show.** A disk whose store is missing or empty goes through a history in
which a path never shows one mark with two contents. Then two scans of the disk, of which one uses
the store, both succeed, find and skip the same files, and register the same graphs row for row, up
to joined surrogate pairs. What is asked of the store is that it can be opened and that it takes the
paths of the source files for keys. -/
theorem run_agree (root : Path) (env : Environment) (disk : FileSystem)
    (wellFormed : disk.WellFormed)
    (empty : ∀ s, disk.storeAt (storePlace root (Settings.cacheDirectory env)) = some s → s = {})
    (history : List ProjectEvent)
    (unambiguous : Unambiguous fun path mark d =>
      ∃ fs ∈ ProjectEvent.disks root env disk history, fs.Shows path mark d)
    (opens : ((ProjectEvent.after root env disk history).openStore root
      (Settings.cacheDirectory env)).2.isOk)
    (encodable : ∀ names ∈ (ProjectEvent.after root env disk history).sourceFiles root
      (Settings.excluded env), (absolute root names).text.hasSurrogate = false) :
    let kept := run (ProjectEvent.after root env disk history) env root true
    let new := run (ProjectEvent.after root env disk history) env root false
    kept.2 = none ∧ new.2 = none ∧ kept.1.found = new.1.found ∧ kept.1.skipped = new.1.skipped ∧
      kept.1.registry.joined = new.1.registry.joined := by
  let known := fun path mark d =>
    ∃ fs ∈ ProjectEvent.disks root env disk history, fs.Shows path mark d
  have first : Sound known root (storePlace root (Settings.cacheDirectory env)) disk := by
    refine ⟨wellFormed, ?_⟩
    intro s found
    rw [empty s found]
    exact GraphStore.truthful_empty
  have onTheWay : ∀ fs ∈ ProjectEvent.disks root env disk history, fs.KnownBy known :=
    fun fs mem _ _ _ shows => ⟨fs, mem, shows⟩
  have sound := ProjectEvent.after_sound first onTheWay
  have stays : StaysReadable known (ProjectEvent.after root env disk history) := by
    rintro path mark d ⟨fs, mem, shows⟩ folded isSealed
    exact shows.unsealed folded (ProjectEvent.after_sealed first onTheWay fs mem isSealed)
  have last := ProjectEvent.after_mem_disks root env disk history
  generalize ProjectEvent.after root env disk history = now at opens encodable sound stays last
  have isKnown : now.KnownBy known := fun _ _ _ shows => ⟨now, last, shows⟩
  have underway := underway_of_openStore sound
  obtain ⟨fs', result, opened⟩ :
      ∃ fs' result, now.openStore root (Settings.cacheDirectory env) = (fs', result) := ⟨_, _, rfl⟩
  rw [opened] at opens underway
  cases result with
  | error e => cases opens
  | ok held =>
    obtain ⟨atPlace, holds⟩ := openStore_holds sound.wellFormed opened
    rw [run_cached opened, run_uncached, sourceFiles_of_plain underway.plain]
    obtain ⟨keptEnds, newEnds, agree⟩ := visitAll_agree sound isKnown unambiguous stays
      (fun _ mem => mem) encodable (s := { files := fs' }) (t := { files := now }) underway holds
      atPlace rfl ⟨rfl, rfl, rfl⟩
    exact ⟨keptEnds, newEnds, agree.found, agree.skipped, agree.registry⟩

/-- A module that declares a function. -/
def functionModule : FileData :=
  let name : Tree := { kind := .identifier, named := true, start := 0, stop := 1,
                       fields := [.name], children := [] }
  let function : Tree := { name with kind := .functionDeclaration, children := [name] }
  { bytes := [0x78, 0x0A], tree := some { function with kind := .program, children := [function] } }

/-- A history in which the graph of a file is kept, the file is changed, and its graph is kept
again. -/
def changedFile : List ProjectEvent :=
  [.write "/m.js" { bytes := [0x78] } (.seconds 1), .scan true,
    .write "/m.js" functionModule (.seconds 2), .scan true]

/-- The law after a change: the scan with the store takes the graph from there. -/
theorem run_agree_changedFile :
    let disk := ProjectEvent.after ⟨.root, []⟩ [] {} changedFile
    let kept := run disk [] ⟨.root, []⟩ true
    let new := run disk [] ⟨.root, []⟩ false
    kept.1.cached = 1 ∧ new.1.analyzed = 1 ∧
      kept.2 = none ∧ new.2 = none ∧ kept.1.found = new.1.found ∧ kept.1.skipped = new.1.skipped ∧
      kept.1.registry.joined = new.1.registry.joined := by
  have marked : (ProjectEvent.disks ⟨.root, []⟩ [] {} changedFile).flatMap markedData =
      [(⟨.seconds 1, 1⟩, { bytes := [0x78] }), (⟨.seconds 1, 1⟩, { bytes := [0x78] }),
        (⟨.seconds 2, 2⟩, functionModule), (⟨.seconds 2, 2⟩, functionModule)] := by
    with_unfolding_all rfl
  refine ⟨by decide +kernel, by decide +kernel, ?_⟩
  refine run_agree ⟨.root, []⟩ [] {} wellFormed_empty (fun _ found => nomatch found) changedFile
    (unambiguous_of_markedData ?_) (by decide +kernel) (by decide +kernel)
  rw [marked]
  simp

/-- A history that leaves a file where the directory for kept graphs should be. -/
def blockedStore : List ProjectEvent :=
  [.write "/.provtrace_cache" { bytes := [0x78] } (.seconds 1),
    .write "/m.js" functionModule (.seconds 2)]

/-- Scans do differ where the store cannot be opened: the one that should use it fails, and the
other one finds the module. -/
theorem run_differ_blockedStore :
    let disk := ProjectEvent.after ⟨.root, []⟩ [] {} blockedStore
    let kept := run disk [] ⟨.root, []⟩ true
    let new := run disk [] ⟨.root, []⟩ false
    (Unambiguous fun path mark d =>
      ∃ fs ∈ ProjectEvent.disks ⟨.root, []⟩ [] {} blockedStore, fs.Shows path mark d) ∧
    kept.2 = some (.store (.file .alreadyExists)) ∧ kept.1.found = [] ∧ new.2 = none ∧
      new.1.found = [("m.js" : Text)] := by
  have marked : (ProjectEvent.disks ⟨.root, []⟩ [] {} blockedStore).flatMap markedData =
      [(⟨.seconds 1, 1⟩, { bytes := [0x78] }), (⟨.seconds 1, 1⟩, { bytes := [0x78] }),
        (⟨.seconds 2, 2⟩, functionModule)] := by
    with_unfolding_all rfl
  refine ⟨unambiguous_of_markedData ?_, ?_⟩
  · rw [marked]
    simp
  · decide +kernel

end Scan

end JsxOrigin
