import JsxOrigin.Proofs.Storage.WellFormed

/-!
# Operations on file systems

Making directories, writing, touching and removing, each as what it does to a well-formed file
system. The first three are sequences of fitting steps, and none of the four makes a store
(`KeepsStores`): a store that is there afterwards was there before, with what it holds.
-/

namespace JsxOrigin

/-- The store in an entry. -/
def Entry.store? : Entry → Option GraphStore
  | .file ⟨_, _, .store s⟩ => some s
  | _ => none

namespace FileSystem

/-! ## Making directories -/

theorem makeDirectory_puts {fs fs' : FileSystem} (wf : fs.WellFormed) {names : List Text}
    (made : fs.makeDirectory names = .ok fs') : Puts PutsDirectory fs fs' := by
  unfold makeDirectory at made
  cases targeted : fs.target names with
  | error e =>
    rw [targeted] at made
    cases made
  | ok result =>
    obtain ⟨place, found⟩ := result
    rw [targeted] at made
    cases found with
    | some entry => cases made
    | none =>
      cases made
      obtain ⟨short, followed, missing⟩ := target_eq_ok_iff.mp targeted
      have fits : fs.Fits place (.directory fs.clock fs.now) :=
        fits_of_none wf short followed missing trivial
      exact add_puts wf fits rfl fun _ _ isDirectory => isDirectory

theorem ensureDirectory_puts {fs fs' : FileSystem} (wf : fs.WellFormed) {names : List Text}
    (ensured : fs.ensureDirectory names = .ok fs') : Puts PutsDirectory fs fs' := by
  unfold ensureDirectory at ensured
  split at ensured
  · cases ensured
  · cases isDirectory : fs.isDirectory ⟨.root, names⟩ with
    | error e =>
      rw [isDirectory] at ensured
      cases ensured
    | ok there =>
      rw [isDirectory] at ensured
      cases there <;> cases ensured
      exact .nil
  · exact makeDirectory_puts wf ensured

theorem attempt_puts {fs : FileSystem} {kind : Place → Entry → Prop}
    {result : Except FileError FileSystem} (puts : ∀ fs', result = .ok fs' → Puts kind fs fs') :
    Puts kind fs (fs.attempt result).1 := by
  cases result with
  | ok fs' => exact puts fs' rfl
  | error e => exact .nil

theorem makeAll_puts {fs : FileSystem} (wf : fs.WellFormed) (names : List Text) :
    Puts PutsDirectory fs (fs.makeAll names).1 := by
  induction names generalizing fs with
  | nil => exact .nil
  | cons name above ih =>
    rw [makeAll]
    split
    · have upper := ih wf
      split
      · rename_i made isMade
        rw [isMade] at upper
        exact upper.trans (attempt_puts fun _ => ensureDirectory_puts (upper.wellFormed wf))
      · exact upper
    · exact attempt_puts fun _ => ensureDirectory_puts wf

theorem makeDirectories_puts {fs : FileSystem} (wf : fs.WellFormed) (path : Path) :
    Puts PutsDirectory fs (fs.makeDirectories path).1 := by
  unfold makeDirectories
  split
  · exact .nil
  · exact makeAll_puts wf _

/-! ## Stores -/

/-- The store at a place. -/
def storeAt (fs : FileSystem) (place : Place) : Option GraphStore :=
  (fs.entry? place).bind Entry.store?

theorem storeAt_put_of_ne (fs : FileSystem) {place other : Place} (differs : other ≠ place)
    (entry : Entry) : (fs.put place entry).storeAt other = fs.storeAt other := by
  rw [storeAt, entry?_put_of_ne fs differs, storeAt]

theorem storeAt_put_self (fs : FileSystem) {place : Place} (below : place ≠ []) (entry : Entry) :
    (fs.put place entry).storeAt place = entry.store? := by
  rw [storeAt, entry?_put_self fs below]
  rfl

/-- Whether all stores of a file system after a change were there before it. -/
def KeepsStores (fs fs' : FileSystem) : Prop :=
  ∀ place s, fs'.storeAt place = some s → fs.storeAt place = some s

/-- The kind of an entry that is no store, or one that stood at its place at first. -/
def PutsKnown (fs : FileSystem) (place : Place) (entry : Entry) : Prop :=
  ∀ s, entry.store? = some s → fs.storeAt place = some s

theorem PutsKnown.of_directory {fs : FileSystem} {place : Place} {entry : Entry}
    (directory : PutsDirectory place entry) : fs.PutsKnown place entry := by
  intro s isStore
  cases entry with
  | directory => cases isStore
  | file node => cases directory

/-- A store after some steps was there before them or is one that was put. -/
theorem Puts.storeAt_cases {kind : Place → Entry → Prop} {fs fs' : FileSystem}
    (steps : Puts kind fs fs') {place : Place} {s : GraphStore}
    (found : fs'.storeAt place = some s) :
    fs.storeAt place = some s ∨ ∃ entry, kind place entry ∧ entry.store? = some s := by
  induction steps with
  | nil => exact .inl found
  | @put fs' changed entry _ _ isKind ih =>
    by_cases same : place = changed
    · subst same
      by_cases below : place = []
      · subst below
        cases found
      · rw [storeAt_put_self fs' below] at found
        exact .inr ⟨entry, isKind, found⟩
    · rw [storeAt_put_of_ne fs' same] at found
      exact ih found

theorem Puts.keepsStores {fs fs' : FileSystem} (steps : Puts fs.PutsKnown fs fs') :
    fs.KeepsStores fs' := by
  intro place s found
  rcases steps.storeAt_cases found with before | ⟨entry, known, isStore⟩
  · exact before
  · exact known s isStore

/-! ## Writing -/

theorem write_puts {fs fs' : FileSystem} (wf : fs.WellFormed) {path : Path} {data : FileData}
    {changed : Time} (clean : ∀ name ∈ path.names, .scalar '/' ∉ name)
    (written : fs.write path data changed = .ok fs') : Puts fs.PutsKnown fs fs' := by
  unfold write at written
  cases sound : path.error? with
  | some e =>
    rw [sound] at written
    cases written
  | none =>
    have fileName : ∀ name ∈ path.names, IsFileName name := fun name mem =>
      ⟨clean name mem, (Path.error?_eq_none_iff path).mp sound name mem⟩
    rw [sound] at written
    cases targeted : fs.target path.names with
    | error e =>
      rw [targeted] at written
      cases written
    | ok result =>
      obtain ⟨place, found⟩ := result
      rw [targeted] at written
      obtain ⟨short, followed, isFound⟩ := target_eq_ok_iff.mp targeted
      have allowed (below : place ≠ []) (number : Nat) :
          AllowedAt place (.file ⟨number, changed, .data data⟩) :=
        ⟨below, fun name mem => fileName name (mem_of_follow followed mem)⟩
      have known (number : Nat) : fs.PutsKnown place (.file ⟨number, changed, .data data⟩) :=
        fun _ isStore => nomatch isStore
      cases found with
      | none =>
        cases written
        have below := ne_nil_of_missing isFound
        exact add_puts wf (fits_of_none wf short followed isFound (allowed below _)) (known _)
          fun _ _ => .of_directory
      | some entry =>
        cases entry with
        | directory number time => cases written
        | file node =>
          simp only [bind, Except.bind, pure, Except.pure] at written
          split at written
          · cases written
          · cases written
            have below := ne_nil_of_file isFound
            exact .put .nil (fits_of_some wf isFound Iff.rfl (allowed below _)) (known _)

/-! ## What a path leads to -/

theorem locate_eq_ok_iff {fs : FileSystem} {path : Path} {place : Place} {entry : Entry} :
    fs.locate path = .ok (place, entry) ↔
      path.error? = none ∧ fs.target path.names = .ok (place, some entry) := by
  unfold locate
  cases path.error? with
  | some e => simp [bind, Except.bind, throw, throwThe, MonadExceptOf.throw]
  | none =>
    cases fs.target path.names with
    | error e => simp [bind, Except.bind]
    | ok result =>
      obtain ⟨reached, found⟩ := result
      cases found <;> simp [bind, Except.bind, pure, Except.pure, throw, throwThe,
        MonadExceptOf.throw]

theorem entry?_of_locate {fs : FileSystem} {path : Path} {place : Place} {entry : Entry}
    (located : fs.locate path = .ok (place, entry)) : fs.entry? place = some entry :=
  (target_eq_ok_iff.mp (locate_eq_ok_iff.mp located).2).2.2

theorem enter_ne_path (fs : FileSystem) (place : Place) (name : Text) (e : PathError) :
    fs.enter place name ≠ .error (.path e) := by
  unfold enter
  split
  · split
    · simp
    · split <;> simp
  · simp
  · simp

theorem follow_ne_path (fs : FileSystem) (place : Place) (names : List Text) (e : PathError) :
    fs.follow place names ≠ .error (.path e) := by
  induction names generalizing place with
  | nil => simp [follow]
  | cons name rest ih =>
    rw [follow]
    split
    · exact ih _
    · rename_i other refused
      rintro ⟨⟩
      exact fs.enter_ne_path place name e refused

/-- A path that a file can have is not refused for what it is made of. -/
theorem locate_ne_path (fs : FileSystem) {path : Path} (sound : path.error? = none)
    (e : PathError) : fs.locate path ≠ .error (.path e) := by
  unfold locate target
  rw [sound]
  by_cases long : Path.longestPath < Path.size path.names
  · simp [long, bind, Except.bind, throw, throwThe, MonadExceptOf.throw]
  · cases followed : fs.follow [] path.names with
    | error other =>
      have notPath := fs.follow_ne_path [] path.names e
      rw [followed] at notPath
      simpa [long, bind, Except.bind, pure, Except.pure] using notPath
    | ok place =>
      simp only [long, if_false, bind, Except.bind, pure, Except.pure]
      cases fs.entry? place <;> simp [throw, throwThe, MonadExceptOf.throw]

/-! ## Touching and removing -/

theorem touch_puts {fs fs' : FileSystem} (wf : fs.WellFormed) {path : Path} {changed : Time}
    (touched : fs.touch path changed = .ok fs') : Puts fs.PutsKnown fs fs' := by
  unfold touch at touched
  cases sound : path.error? with
  | some e =>
    rw [sound] at touched
    cases touched
  | none =>
    rw [sound] at touched
    cases settable : changed.isSettable with
    | false =>
      rw [settable] at touched
      cases touched
    | true =>
      rw [settable] at touched
      cases located : fs.locate path with
      | error e =>
        rw [located] at touched
        cases touched
      | ok result =>
        obtain ⟨place, entry⟩ := result
        have found := entry?_of_locate located
        rw [located] at touched
        cases entry with
        | directory number old =>
          cases touched
          exact .put .nil (fits_of_some wf found Iff.rfl trivial) fun _ isStore => nomatch isStore
        | file node =>
          cases touched
          have below := ne_nil_of_file found
          obtain ⟨number, old, content⟩ := node
          -- what a place has to allow depends on the content, which stays
          have allowed : AllowedAt place (.file ⟨number, changed, content⟩) := by
            have before := wf.allowed place _ (mem_entries_of_entry below found)
            cases content <;> exact before
          refine .put .nil (fits_of_some wf found Iff.rfl allowed) ?_
          intro s isStore
          rw [storeAt, found]
          cases content <;> exact isStore

/-- What is left when everything at and below a place is taken away. -/
theorem wellFormed_of_filter {fs left : FileSystem} (wf : fs.WellFormed) {place : Place}
    (isLeft : left.entries = fs.entries.filter fun e => !place.isPrefixOf e.1)
    (opened : left.closed ⊆ fs.closed) : left.WellFormed ∧ fs.KeepsStores left := by
  have lookup (p : Place) (below : p ≠ []) :
      left.entry? p = if !place.isPrefixOf p then fs.entry? p else none := by
    rw [entry?_of_ne_nil left below, entry?_of_ne_nil fs below, isLeft]
    exact Table.get?_filter (fun p => !place.isPrefixOf p) p fs.entries
  have wasThere {p : Place} {e : Entry} (mem : (p, e) ∈ left.entries) :
      (p, e) ∈ fs.entries ∧ place.isPrefixOf p = false := by
    rw [isLeft] at mem
    simpa using List.mem_filter.mp mem
  refine ⟨⟨?_, ?_, ?_, ?_, ?_⟩, ?_⟩
  · rw [isLeft]
    exact wf.once.sublist (List.filter_sublist.map _)
  · intro p e mem below
    obtain ⟨old, kept⟩ := wasThere mem
    by_cases top : p.dropLast = []
    · rw [top]
      exact left.isDirectoryAt_root
    · -- a directory above the place that went would have taken `p` with it
      have keptParent : place.isPrefixOf p.dropLast = false := by
        rw [Bool.eq_false_iff] at kept ⊢
        intro above
        apply kept
        rw [List.isPrefixOf_iff_prefix] at above ⊢
        exact above.trans (List.dropLast_prefix p)
      obtain ⟨number, changed, found⟩ := wf.parent p e old below
      exact ⟨number, changed, by rw [lookup _ top, keptParent]; exact found⟩
  · intro p e mem
    exact wf.folded p e (wasThere mem).1
  · intro p e mem
    have before := wf.admitted p e (wasThere mem).1
    exact ⟨fun below isClosed => before.inOpen below (opened isClosed), before.shortNames,
      before.shortPath⟩
  · intro p e mem
    exact wf.allowed p e (wasThere mem).1
  · intro p s found
    by_cases below : p = []
    · subst below
      cases found
    · rw [storeAt, lookup p below] at found
      split at found
      · exact found
      · cases found

theorem KeepsStores.trans {fs fs' fs'' : FileSystem} (first : fs.KeepsStores fs')
    (second : fs'.KeepsStores fs'') : fs.KeepsStores fs'' :=
  fun place s found => first place s (second place s found)

/-- Removing leaves what is not at or below a place, and marks its directory. -/
theorem remove_cases {fs fs' : FileSystem} {path : Path} (gone : fs.remove path = .ok fs') :
    ∃ (place : Place) (left : FileSystem), fs' = left.stamp place.dropLast ∧
      (left.entries = fs.entries.filter fun e => !place.isPrefixOf e.1) ∧
      left.sealed ⊆ fs.sealed ∧ left.closed ⊆ fs.closed := by
  unfold remove at gone
  cases located : fs.locate path with
  | error e =>
    rw [located] at gone
    cases gone
  | ok result =>
    obtain ⟨place, entry⟩ := result
    rw [located] at gone
    simp only [bind, Except.bind, pure, Except.pure, List.partition_eq_filter_filter] at gone
    cases gone
    exact ⟨place, _, rfl, rfl, fun _ mem => (List.mem_filter.mp mem).1,
      fun _ mem => (List.mem_filter.mp mem).1⟩

/-- Removing what a path leads to makes no store. -/
theorem remove_wellFormed {fs fs' : FileSystem} (wf : fs.WellFormed) {path : Path}
    (gone : fs.remove path = .ok fs') : fs'.WellFormed ∧ fs.KeepsStores fs' := by
  obtain ⟨place, left, rfl, isLeft, -, opened⟩ := remove_cases gone
  obtain ⟨wfLeft, keeps⟩ := wellFormed_of_filter wf isLeft opened
  have stamped := stamp_puts wfLeft place.dropLast
  exact ⟨stamped.wellFormed wfLeft,
    keeps.trans (stamped.mono fun _ _ => .of_directory).keepsStores⟩

/-- Removing seals no file. -/
theorem remove_sealed {fs fs' : FileSystem} (wf : fs.WellFormed) {path : Path}
    (gone : fs.remove path = .ok fs') : fs'.sealed ⊆ fs.sealed := by
  obtain ⟨place, left, rfl, isLeft, unsealed, opened⟩ := remove_cases gone
  have wfLeft := (wellFormed_of_filter wf isLeft opened).1
  rw [(stamp_puts wfLeft place.dropLast).sealed_eq]
  exact unsealed

end FileSystem

end JsxOrigin
