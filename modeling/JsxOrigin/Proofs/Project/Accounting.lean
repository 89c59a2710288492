import JsxOrigin.Proofs.Project.Discovery
import JsxOrigin.Proofs.Project.Transparency

/-!
# Every file is accounted for

A scan sorts the files that it goes through into those that it registers and those that it skips,
and it counts for how many of the first it had a kept graph. A file is registered if it is in a
known language and can be read or has a kept graph that still counts (`Scan.registers`).
`Scan.Accounts` says what the fields of a scan hold once it went through some files: one visit adds
its file to them (`Scan.visit_accounts`), and so a whole scan accounts for the files up to the one
at which it stops (`Scan.visitAll_accounts`). What is kept for files still to come does not change
on the way (`Scan.AtHand`).

**The law** (`Scan.fill_accounts`): after every history of a project, under whatever settings and
seals and with any registry to fill, a scan whose store takes all paths for keys completes unless it
cannot open the store, and then it accounts for all files that are found.
-/

namespace JsxOrigin

open FileSystem

variable {known : Path → Mark → FileData → Prop} {root : Path} {place : Place}

namespace Scan

/-- Whether a store keeps a graph of a file as it is now. -/
def isUpToDate (fs : FileSystem) (kept : GraphStore) (path : Path) : Bool :=
  match fs.mark path with
  | .ok (some mark) => (kept.text? path.text mark).isSome
  | _ => false

/-- Whether a file is registered by a scan that starts on a disk with some kept graphs: it is in a
known language, and it is not sealed or its graph is up to date. -/
def registers (fs : FileSystem) (root : Path) (kept : GraphStore) (names : List Text) : Bool :=
  Language.supports (absolute root names) &&
    (!fs.sealed.contains (root.names ++ names) || isUpToDate fs kept (absolute root names))

/-- **The account of a scan** that went through some files: each is registered or skipped, in the
order of the files and as it should be, each registered file is counted once, and the registry holds
these and nothing else. -/
structure Accounts (isRegistered : List Text → Bool) (s : Scan) (done : List (List Text)) :
    Prop where
  found : s.found = (done.filter isRegistered).map shown
  skipped : s.skipped = (done.filter (!isRegistered ·)).map shown
  counted : s.cached + s.analyzed = s.found.length
  registered : s.registry.keys = s.found

theorem accounts_nothing (isRegistered : List Text → Bool) (fs : FileSystem) :
    Accounts isRegistered { files := fs } [] := ⟨rfl, rfl, rfl, rfl⟩

section Steps

variable {s : Scan} {done : List (List Text)} {names : List Text} {isRegistered : List Text → Bool}

theorem Accounts.skip (accounts : s.Accounts isRegistered done)
    (passed : isRegistered names = false) :
    (s.skip names).Accounts isRegistered (done ++ [names]) := by
  refine ⟨?_, ?_, accounts.counted, accounts.registered⟩
  · simp [Scan.skip, accounts.found, passed]
  · simp [Scan.skip, accounts.skipped, passed]

theorem Accounts.keys_put (accounts : s.Accounts isRegistered done)
    (fresh : shown names ∉ done.map shown) (g : ModuleGraph Json) :
    (s.registry.put (shown names) g).keys = s.found ++ [shown names] := by
  have new : shown names ∉ s.registry.keys := by
    rw [accounts.registered, accounts.found]
    intro mem
    obtain ⟨other, isDone, same⟩ := List.mem_map.mp mem
    exact fresh (List.mem_map.mpr ⟨other, (List.mem_filter.mp isDone).1, same⟩)
  rw [Registry.put, Table.set_of_not_mem new]
  simp [Table.keys, ← accounts.registered]

/-- A file that is registered, from the store or after an analysis. -/
theorem Accounts.register (accounts : s.Accounts isRegistered done)
    (fresh : shown names ∉ done.map shown) (passes : isRegistered names = true)
    {g : ModuleGraph Json} {s' : Scan} (found : s'.found = s.found ++ [shown names])
    (skipped : s'.skipped = s.skipped)
    (counted : s'.cached + s'.analyzed = s.cached + s.analyzed + 1)
    (registry : s'.registry = s.registry.put (shown names) g) :
    s'.Accounts isRegistered (done ++ [names]) := by
  refine ⟨?_, ?_, ?_, ?_⟩
  · simp [found, accounts.found, passes]
  · simp [skipped, accounts.skipped, passes]
  · rw [counted, accounts.counted, found, List.length_append, List.length_singleton]
  · rw [registry, accounts.keys_put fresh, found]

theorem Accounts.reuse (accounts : s.Accounts isRegistered done)
    (fresh : shown names ∉ done.map shown) (passes : isRegistered names = true)
    (g : ModuleGraph Json) : (s.reuse names g).Accounts isRegistered (done ++ [names]) :=
  accounts.register fresh passes rfl rfl (Nat.add_right_comm _ _ _) rfl

theorem Accounts.record (accounts : s.Accounts isRegistered done)
    (fresh : shown names ∉ done.map shown) (passes : isRegistered names = true)
    (g : ModuleGraph Json) (fs : FileSystem) :
    (s.record names g fs).Accounts isRegistered (done ++ [names]) :=
  accounts.register fresh passes rfl rfl (Nat.add_assoc _ _ _).symm rfl

end Steps

/-! ## Stores at hand -/

/-- Whether the store of a scan is at hand and keeps for files that are still to come what it kept
at first. A scan that uses no store has nothing kept. -/
def AtHand (root : Path) (place : Place) (first : GraphStore) (store : Option OpenStore)
    (fs : FileSystem) (files : List (List Text)) : Prop :=
  match store with
  | none => first = {}
  | some held => held.place = place ∧ ∃ kept, fs.Holds held kept ∧
    ∀ names ∈ files, ∀ mark,
      kept.text? (absolute root names).text mark = first.text? (absolute root names).text mark

/-- Whether the store of a scan, if it uses one, takes the path of a file for a key. -/
def Takes (root : Path) (store : Option OpenStore) (names : List Text) : Prop :=
  store.isSome → (absolute root names).text.hasSurrogate = false

variable {first : GraphStore} {store : Option OpenStore} {names : List Text}
  {files : List (List Text)} {fs : FileSystem} {mark : Mark}

theorem AtHand.later (atHand : AtHand root place first store fs (names :: files)) :
    AtHand root place first store fs files := by
  cases store with
  | none => exact atHand
  | some held =>
    obtain ⟨atPlace, kept, holds, same⟩ := atHand
    exact ⟨atPlace, kept, holds, fun n mem => same n (List.mem_cons_of_mem _ mem)⟩

/-- A store that tells the truth has graphs for files in known languages only. -/
theorem keptFor_cases (sound : Sound known root place fs)
    (atHand : AtHand root place first store fs (names :: files)) (takes : Takes root store names)
    (below : root.names ++ names ≠ []) (clean : ∀ name ∈ root.names ++ names, .scalar '/' ∉ name)
    (marked : fs.mark (absolute root names) = .ok (some mark)) :
    (first.text? (absolute root names).text mark = none ∧
      keptFor store fs (absolute root names) = .ok none) ∨
      ((first.text? (absolute root names).text mark).isSome ∧
        (Language.ofPath? (absolute root names)).isSome ∧
        ∃ g, keptFor store fs (absolute root names) = .ok (some g)) := by
  cases store with
  | none =>
    cases atHand
    exact .inl ⟨rfl, rfl⟩
  | some held =>
    obtain ⟨atPlace, kept, holds, same⟩ := atHand
    have truthful := sound.truthful kept (atPlace ▸ holds.storeAt)
    rw [← same names List.mem_cons_self mark]
    rcases keptGraph_cases truthful holds.readStore below clean (takes rfl) marked with
      ⟨noText, nothing⟩ | ⟨d', attested, isText, given⟩
    · exact .inl ⟨noText, by rw [keptFor, nothing]; rfl⟩
    · exact .inr ⟨isText, attested.language, _, by rw [keptFor, given]; rfl⟩

/-- Keeping the graph of one file leaves what is kept for others. -/
theorem keepFor_atHand (atHand : AtHand root place first store fs (names :: files))
    (takes : Takes root store names)
    (differ : ∀ n ∈ files, (absolute root n).text ≠ (absolute root names).text)
    (marked : fs.mark (absolute root names) = .ok (some mark)) (g : ModuleGraph Json) :
    ∃ fs', keepFor store fs (absolute root names) g = .ok fs' ∧
      AtHand root place first store fs' files := by
  cases store with
  | none => exact ⟨fs, rfl, atHand⟩
  | some held =>
    obtain ⟨atPlace, kept, holds, same⟩ := atHand
    obtain ⟨fs', keptNow, holds'⟩ := keepGraph_of_holds holds (takes rfl) marked g
    refine ⟨fs', by rw [keepFor, keptNow]; rfl, atPlace, _, holds', ?_⟩
    intro n mem m
    rw [GraphStore.text?_keep_of_ne kept (differ n mem), same n (List.mem_cons_of_mem _ mem)]

/-! ## Visits -/

variable {start : FileSystem} {excluded : List Text} {s : Scan} {done : List (List Text)}

theorem shown_injective {others : List Text} (some : names ≠ []) (someOthers : others ≠ [])
    (clean : ∀ name ∈ names, .scalar '/' ∉ name) (cleanOthers : ∀ name ∈ others, .scalar '/' ∉ name)
    (same : shown names = shown others) : names = others := by
  have slash : Text.ofString "/" = [.scalar '/'] := rfl
  rw [shown, shown, slash] at same
  rw [← Text.splitOn_join some clean, same, Text.splitOn_join someOthers cleanOthers]

/-- Files that are found have different keys. -/
theorem key_ne (wf : start.WellFormed) {others : List Text}
    (found : names ∈ start.sourceFiles root excluded)
    (foundOthers : others ∈ start.sourceFiles root excluded) (differ : others ≠ names) :
    (absolute root others).text ≠ (absolute root names).text := by
  obtain ⟨below, -, fileNames, -⟩ := sourceFiles_stand wf found
  obtain ⟨belowOthers, -, fileNamesOthers, -⟩ := sourceFiles_stand wf foundOthers
  intro same
  exact differ (List.append_cancel_left (Path.text_injective belowOthers below
    (fun name mem => (fileNamesOthers name mem).1) (fun name mem => (fileNames name mem).1) same))

/-- **One file**, if the store takes its path. -/
theorem visit_accounts (sound : Sound known root place start) (isKnown : start.KnownBy known)
    (found : ∀ n ∈ names :: files, n ∈ start.sourceFiles root excluded)
    (takes : Takes root store names) (underway : Underway known root place start s.files)
    (atHand : AtHand root place first store s.files (names :: files))
    (accounts : s.Accounts (registers start root first) done)
    (fresh : shown names ∉ done.map shown) (once : names ∉ files) :
    ∃ s', s.visit root store names = .ok s' ∧ Underway known root place start s'.files ∧
      AtHand root place first store s'.files files ∧
      s'.Accounts (registers start root first) (done ++ [names]) := by
  have wf := sound.wellFormed
  have foundHere := found names List.mem_cons_self
  obtain ⟨below, -, clean, mark, d, -, stands⟩ := source_underway wf isKnown foundHere
  have standsHere := stands s.files underway
  suffices visited : ∃ s', s.visit root store names = .ok s' ∧
      AtHand root place first store s'.files files ∧
      s'.Accounts (registers start root first) (done ++ [names]) by
    obtain ⟨s', visited, rest⟩ := visited
    exact ⟨s', visited, visit_underway wf isKnown foundHere underway visited, rest⟩
  have registered : registers start root first names =
      (Language.supports (absolute root names) && (!start.sealed.contains (root.names ++ names) ||
        (first.text? (absolute root names).text mark).isSome)) := by
    rw [registers, isUpToDate, (stands start ⟨sound, rfl, rfl⟩).mark]
  have supported := (supports_of_mem_sourceFiles wf foundHere).1
  rw [visit_eq, underway.module?_eq standsHere]
  rcases keptFor_cases underway.sound atHand takes below clean standsHere.mark with
    ⟨noText, nothing⟩ | ⟨isText, language, g, given⟩
  · have same : registers start root first names = isModule start root names := by
      rw [registered, noText, Option.isSome_none, Bool.or_false, ← supported, isModule]
    rw [nothing]
    cases readable : isModule start root names with
    | false => exact ⟨s.skip names, rfl, atHand.later, accounts.skip (same.trans readable)⟩
    | true =>
      have differ : ∀ n ∈ files, (absolute root n).text ≠ (absolute root names).text := by
        intro n mem
        exact key_ne wf foundHere (found n (List.mem_cons_of_mem _ mem))
          (ne_of_mem_of_not_mem mem once)
      obtain ⟨fs', kept, atHand'⟩ := keepFor_atHand atHand takes differ standsHere.mark
        (SourceModule.ofData names d).scanned
      refine ⟨s.record names (SourceModule.ofData names d).scanned fs', ?_, atHand',
        accounts.record fresh (same.trans readable) _ _⟩
      show keepFor store s.files _ (SourceModule.ofData names d).scanned >>= _ = _
      rw [kept]
      rfl
  · rw [isText, ← supported, language, Bool.or_true, Bool.true_and] at registered
    rw [given]
    exact ⟨s.reuse names g, rfl, atHand.later, accounts.reuse fresh registered g⟩

/-- One file whose path the store does not take. -/
theorem visit_refused (wf : start.WellFormed) (isKnown : start.KnownBy known)
    (found : names ∈ start.sourceFiles root excluded) (refused : ¬ Takes root store names)
    (underway : Underway known root place start s.files)
    (atHand : AtHand root place first store s.files files) :
    ∃ e, s.visit root store names = .error e := by
  obtain ⟨-, -, -, mark, d, -, stands⟩ := source_underway wf isKnown found
  have marked := markOf_of_mark (stands s.files underway).mark
  cases store with
  | none => exact absurd (fun isSome => absurd isSome Bool.false_ne_true) refused
  | some held =>
    obtain ⟨-, kept, holds, -⟩ := atHand
    have unencodable : (absolute root names).text.hasSurrogate = true := by
      simpa [Takes] using refused
    have noGraph : s.files.keptGraph held (absolute root names) =
        .error (.path .unencodable) := by
      simp only [keptGraph, marked, holds.readStore, storeKey, unencodable, if_true, bind,
        Except.bind]
    exact ⟨.store (.path .unencodable), by rw [visit_eq, keptFor, noGraph]; rfl⟩

/-- **Any number of files.** The scan accounts for the files up to the one at which it stops. It
stops nowhere if the store takes all paths. -/
theorem visitAll_accounts (sound : Sound known root place start) (isKnown : start.KnownBy known)
    (found : ∀ names ∈ files, names ∈ start.sourceFiles root excluded)
    (underway : Underway known root place start s.files)
    (atHand : AtHand root place first store s.files files)
    (accounts : s.Accounts (registers start root first) done)
    (distinct : ((done ++ files).map shown).Nodup) :
    ((∀ names ∈ files, Takes root store names) → (visitAll root store files s).2 = none) ∧
      ∃ more, more <+: files ∧
        (visitAll root store files s).1.Accounts (registers start root first) (done ++ more) ∧
        ((visitAll root store files s).2 = none → more = files) := by
  induction files generalizing s done with
  | nil =>
    refine ⟨fun _ => rfl, [], List.nil_prefix, ?_, fun _ => rfl⟩
    rw [List.append_nil]
    exact accounts
  | cons names rest ih =>
    by_cases takes : Takes root store names
    · have apart := distinct
      rw [List.map_append, List.map_cons, List.nodup_append, List.nodup_cons] at apart
      rw [List.append_cons] at distinct
      have fresh : shown names ∉ done.map shown := by
        intro mem
        exact apart.2.2 _ mem _ List.mem_cons_self rfl
      have once : names ∉ rest := fun mem => apart.2.1.1 (List.mem_map_of_mem mem)
      obtain ⟨s', visited, underway', atHand', accounts'⟩ :=
        visit_accounts sound isKnown found takes underway atHand accounts fresh once
      obtain ⟨completes, more, isPrefix, accountsAll, all⟩ := ih
        (fun n mem => found n (List.mem_cons_of_mem _ mem)) underway' atHand' accounts' distinct
      simp only [visitAll, visited, List.forall_mem_cons, takes, true_and]
      refine ⟨completes, names :: more, List.cons_prefix_cons.mpr ⟨rfl, isPrefix⟩, ?_, ?_⟩
      · rw [List.append_cons]
        exact accountsAll
      · intro ended
        rw [all ended]
    · have isHere := found names List.mem_cons_self
      obtain ⟨e, refused⟩ :=
        visit_refused sound.wellFormed isKnown isHere takes underway atHand
      have stopped : visitAll root store (names :: rest) s = (s, some e) := by
        rw [visitAll, refused]
      rw [stopped]
      refine ⟨fun all => absurd (all names List.mem_cons_self) takes, [], List.nil_prefix, ?_,
        fun ended => absurd ended (Option.some_ne_none e)⟩
      rw [List.append_nil]
      exact accounts

/-! ## Whole scans -/

/-- Files that are found are shown by different paths. -/
theorem nodup_shown (wf : start.WellFormed) (root : Path) (excluded : List Text) :
    ((start.sourceFiles root excluded).map shown).Nodup := by
  have named : ∀ names ∈ start.sourceFiles root excluded,
      names ≠ [] ∧ ∀ name ∈ names, .scalar '/' ∉ name := by
    intro names found
    obtain ⟨name, ending, last, -⟩ := ((mem_sourceFiles_iff wf).mp found).ending
    obtain ⟨-, -, fileNames, -⟩ := sourceFiles_stand wf found
    refine ⟨?_, fun name mem => (fileNames name (List.mem_append_right _ mem)).1⟩
    rintro rfl
    cases last
  refine List.pairwise_map.mpr ((sourceFiles_increasing wf root excluded).imp_of_mem ?_)
  intro a b memA memB before same
  obtain ⟨someA, cleanA⟩ := named a memA
  obtain ⟨someB, cleanB⟩ := named b memB
  rw [shown_injective someA someB cleanA cleanB same] at before
  exact List.lt_irrefl _ before

end Scan

/-! ## Histories under changing settings -/

/-- A disk on which other files are sealed. -/
def FileSystem.reseal (fs : FileSystem) (places : List Place) : FileSystem :=
  { fs with sealed := places }

theorem Sound.reseal {fs : FileSystem} (sound : Sound known root place fs) (places : List Place) :
    Sound known root place (fs.reseal places) := by
  have wf := sound.wellFormed
  refine ⟨⟨wf.once, wf.parent, wf.folded, ?_, wf.allowed⟩, sound.truthful⟩
  intro place entry mem
  have admitted := wf.admitted place entry mem
  exact ⟨admitted.inOpen, admitted.shortNames, admitted.shortPath⟩

/-- An event, with the settings that it meets and the places of the files that are sealed when it
happens. -/
structure Occasion where
  event : ProjectEvent
  settings : Environment := []
  sealed : List Place := []

/-- The disk after a history, each event of which has settings and seals of its own. -/
def Occasion.replay (root : Path) (fs : FileSystem) (history : List Occasion) : FileSystem :=
  history.foldl (fun fs o => o.event.apply root o.settings (fs.reseal o.sealed)) fs

theorem Occasion.replay_sound {fs : FileSystem} (sound : Sound known root place fs)
    (isKnown : ∀ disk : FileSystem, disk.KnownBy known) (history : List Occasion) :
    Sound known root place (replay root fs history) := by
  induction history generalizing fs with
  | nil => exact sound
  | cons o rest ih =>
    exact ih (ProjectEvent.apply_sound o.settings (sound.reseal o.sealed) (isKnown _) o.event)

/-- Whether a disk comes from a history of a project before which there was nothing in the store at
a place. -/
def Occasion.LeadsTo (root : Path) (place : Place) (fs : FileSystem) : Prop :=
  ∃ disk history places, disk.WellFormed ∧ (∀ s, disk.storeAt place = some s → s = {}) ∧
    fs = (replay root disk history).reseal places

/-- Such a disk is sound, if it does not matter which data a path has shown. -/
theorem Occasion.LeadsTo.sound {fs : FileSystem} (leads : LeadsTo root place fs) :
    Sound (fun _ _ _ => True) root place fs := by
  obtain ⟨disk, history, places, wellFormed, empty, rfl⟩ := leads
  have first : Sound (fun _ _ _ => True) root place disk := by
    refine ⟨wellFormed, ?_⟩
    intro s found
    rw [empty s found]
    exact GraphStore.truthful_empty
  exact (replay_sound first (fun _ _ _ _ _ => trivial) history).reseal places

namespace Scan

/-- What a scan does once its store is open, or does not use one. -/
theorem run_cases (fs : FileSystem) (env : Environment) (root : Path) (useCache : Bool) :
    (∃ fs' e, useCache = true ∧ fs.openStore root (Settings.cacheDirectory env) = (fs', .error e) ∧
      run fs env root useCache = ({ files := fs' }, some (.store e))) ∨
    (∃ fs' held, useCache = true ∧
      fs.openStore root (Settings.cacheDirectory env) = (fs', .ok held) ∧
      run fs env root useCache = visitAll root (some held)
        (fs'.sourceFiles root (Settings.excluded env)) { files := fs' }) ∨
    (useCache = false ∧ run fs env root useCache = visitAll root none
      (fs.sourceFiles root (Settings.excluded env)) { files := fs }) := by
  cases useCache with
  | false => exact .inr (.inr ⟨rfl, run_uncached fs env root⟩)
  | true =>
    cases opened : fs.openStore root (Settings.cacheDirectory env) with
    | mk fs' result =>
      cases result with
      | error e => exact .inl ⟨fs', e, rfl, rfl, run_refused opened⟩
      | ok held => exact .inr (.inl ⟨fs', held, rfl, rfl, run_cached opened⟩)

/-- The registry that is passed in is reset, so it plays no part. -/
theorem fill_eq_run (registry : Registry) (fs : FileSystem) (env : Environment) (root : Path)
    (useCache : Bool) : fill registry fs env root useCache = run fs env root useCache := rfl

/-- The graphs that are kept for a scan when it starts. -/
def keptAtFirst (fs : FileSystem) (env : Environment) (root : Path) (useCache : Bool) :
    GraphStore :=
  if useCache then (fs.storeAt (storePlace root (Settings.cacheDirectory env))).getD {} else {}

/-- A scan of a sound disk accounts for what it came to. -/
theorem run_accounts {fs : FileSystem} {env : Environment}
    (sound : Sound known root (storePlace root (Settings.cacheDirectory env)) fs)
    (isKnown : fs.KnownBy known) (useCache : Bool) :
    ((useCache = true → ∀ names ∈ fs.sourceFiles root (Settings.excluded env),
        (absolute root names).text.hasSurrogate = false) →
      ((run fs env root useCache).2 = none ↔
        (useCache = true → (fs.openStore root (Settings.cacheDirectory env)).2.isOk))) ∧
    ∃ done, done <+: fs.sourceFiles root (Settings.excluded env) ∧
      (run fs env root useCache).1.Accounts
        (registers fs root (keptAtFirst fs env root useCache)) done ∧
      ((run fs env root useCache).2 = none →
        done = fs.sourceFiles root (Settings.excluded env)) := by
  have wf := sound.wellFormed
  have distinct := nodup_shown wf root (Settings.excluded env)
  rcases run_cases fs env root useCache with
    ⟨fs', e, rfl, opened, ran⟩ | ⟨fs', held, rfl, opened, ran⟩ | ⟨rfl, ran⟩
  · rw [ran, opened]
    refine ⟨?_, [], List.nil_prefix, accounts_nothing _ fs',
      fun ended => absurd ended (Option.some_ne_none _)⟩
    simp [Except.isOk, Except.toBool]
  · have underway := underway_openStore sound (Settings.cacheDirectory env)
    rw [opened] at underway
    obtain ⟨atPlace, holds⟩ := openStore_holds wf opened
    have atHand : AtHand root (storePlace root (Settings.cacheDirectory env))
        (keptAtFirst fs env root true) (some held) fs'
        (fs.sourceFiles root (Settings.excluded env)) :=
      ⟨atPlace, _, holds, fun _ _ _ => rfl⟩
    have accounted := visitAll_accounts (s := { files := fs' }) sound isKnown (fun _ mem => mem)
      underway atHand (accounts_nothing _ fs') distinct
    rw [ran, opened, sourceFiles_of_plain underway.plain]
    refine ⟨fun takes => ?_, accounted.2⟩
    simpa [Except.isOk, Except.toBool] using accounted.1 fun names mem _ => takes rfl names mem
  · have atHand : AtHand root (storePlace root (Settings.cacheDirectory env))
        (keptAtFirst fs env root false) none fs (fs.sourceFiles root (Settings.excluded env)) := rfl
    have accounted := visitAll_accounts (s := { files := fs }) sound isKnown (fun _ mem => mem)
      ⟨sound, rfl, rfl⟩ atHand (accounts_nothing _ fs) distinct
    rw [ran]
    refine ⟨fun _ => ?_, accounted.2⟩
    simpa [Takes] using accounted.1

/-- **Every file is accounted for.** A disk whose store is missing or empty goes through any history
of the project, and then a scan fills a registry. The files that are found are those that they
should be, in order and once each, and those of them in no language are the ones whose name is
nothing but an ending. If the store is not used or takes all paths for keys, the scan completes
exactly if it does not use the store or can open it. It accounts for all files if it completes, and
for those that it came to if it does not: a file in a known language is registered unless it is
sealed and no graph of it is up to date. -/
theorem fill_accounts (root : Path) (disk : FileSystem) (wellFormed : disk.WellFormed)
    (history : List Occasion) (env : Environment) (places : List Place)
    (empty : ∀ s, disk.storeAt (storePlace root (Settings.cacheDirectory env)) = some s → s = {})
    (useCache : Bool) (registry : Registry) :
    let now := (Occasion.replay root disk history).reseal places
    let listed := now.sourceFiles root (Settings.excluded env)
    let result := fill registry now env root useCache
    listed.Pairwise (fun a b => Path.numbers a < Path.numbers b) ∧
    (∀ names, names ∈ listed ↔ now.IsSource root (Settings.excluded env) names) ∧
    (∀ names ∈ listed, Language.supports (absolute root names) = false ↔
      ∃ ending ∈ Settings.fileEndings, names.getLast? = some ending) ∧
    ((useCache = true → ∀ names ∈ listed, (absolute root names).text.hasSurrogate = false) →
      (result.2 = none ↔
        (useCache = true → (now.openStore root (Settings.cacheDirectory env)).2.isOk))) ∧
    ∃ done, done <+: listed ∧
      result.1.Accounts (registers now root (keptAtFirst now env root useCache)) done ∧
      (result.2 = none → done = listed) := by
  have leads : Occasion.LeadsTo root (storePlace root (Settings.cacheDirectory env))
      ((Occasion.replay root disk history).reseal places) :=
    ⟨disk, history, places, wellFormed, empty, rfl⟩
  have sound := leads.sound
  have wf := sound.wellFormed
  simp only [fill_eq_run]
  exact ⟨sourceFiles_increasing wf root _, fun names => mem_sourceFiles_iff wf,
    fun names found => (supports_of_mem_sourceFiles wf found).2,
    run_accounts sound (fun _ _ _ _ => trivial) useCache⟩

/-- A history after which a project has a file whose graph is kept, two that are new, one whose name
is nothing but an ending, and one in a directory that is passed by. -/
def mixedFiles : List Occasion :=
  [⟨.makeDirectories "/dist", [], []⟩, ⟨.write "/dist/a.js" functionModule (.seconds 1), [], []⟩,
    ⟨.write "/a.js" functionModule (.seconds 1), [], []⟩, ⟨.scan true, [], []⟩,
    ⟨.makeDirectories "/b", [], []⟩, ⟨.write "/b/.ts" functionModule (.seconds 2), [], []⟩,
    ⟨.write "/c.tsx" functionModule (.seconds 2), [], []⟩,
    ⟨.write "/d.js" functionModule (.seconds 2), [], []⟩]

/-- A registry with a module that is gone. -/
def outdated : Registry :=
  Registry.put "gone.js" (SourceModule.ofData ["gone.js"] functionModule).scanned []

/-- The law for files of all kinds and a registry that is not empty. Of the two files that are
sealed in the end, the one whose graph is kept is registered, and the new one is skipped. -/
theorem fill_accounts_mixedFiles :
    let places : List Place := [["a.js"], ["d.js"]]
    let now := (Occasion.replay ⟨.root, []⟩ {} mixedFiles).reseal places
    let listed : List (List Text) := [["a.js"], ["b", ".ts"], ["c.tsx"], ["d.js"]]
    let result := fill outdated now [] ⟨.root, []⟩ true
    now.sourceFiles ⟨.root, []⟩ (Settings.excluded []) = listed ∧
    result.2 = none ∧ result.1.found = [("a.js" : Text), ("c.tsx" : Text)] ∧
    result.1.skipped = [("b/.ts" : Text), ("d.js" : Text)] ∧
    result.1.cached + result.1.analyzed = 2 ∧
    result.1.registry.keys = [("a.js" : Text), ("c.tsx" : Text)] := by
  intro places now listed result
  have isListed : now.sourceFiles ⟨.root, []⟩ (Settings.excluded []) = listed := by
    have below : (now.filesBelow []).filter (isSourceFile (Settings.excluded [])) = listed := by
      decide +kernel
    rw [sourceFiles, below]
    exact List.mergeSort_of_pairwise (by decide)
  have empty (s : GraphStore) (found : FileSystem.storeAt {}
      (storePlace ⟨.root, []⟩ (Settings.cacheDirectory [])) = some s) : s = {} := by
    cases found
  obtain ⟨-, -, -, completes, done, -, accounts, all⟩ :=
    fill_accounts ⟨.root, []⟩ {} wellFormed_empty mixedFiles [] places empty true outdated
  rw [isListed] at completes all
  have ended : result.2 = none := (completes fun _ => by decide).mpr fun _ => by decide +kernel
  rw [all ended] at accounts
  have found : result.1.found = [("a.js" : Text), ("c.tsx" : Text)] :=
    accounts.found.trans (by decide +kernel)
  refine ⟨isListed, ended, found, accounts.skipped.trans (by decide +kernel), ?_, ?_⟩
  · rw [accounts.counted, found]
    rfl
  · rw [accounts.registered, found]

/-- Not every scan completes: where a file stands in the place of the directory for kept graphs, a
scan that uses them comes to no file at all. -/
theorem fill_stopped_at_store :
    let now := Occasion.replay ⟨.root, []⟩ {}
      [⟨.write "/.provtrace_cache" { bytes := [0x78] } (.seconds 1), [], []⟩,
        ⟨.write "/a.js" functionModule (.seconds 1), [], []⟩]
    let result := fill [] now [] ⟨.root, []⟩ true
    now.sourceFiles ⟨.root, []⟩ (Settings.excluded []) = [[("a.js" : Text)]] ∧ result.2.isSome ∧
      result.1.found = [] ∧ result.1.skipped = [] := by
  decide +kernel

end Scan

end JsxOrigin
