import JsxOrigin.Project.Resolution
import JsxOrigin.Proofs.Project.SourceFiles
import JsxOrigin.Proofs.Storage.Lookup
import JsxOrigin.Proofs.Storage.TextualPath
import Mathlib.Data.List.Find

/-!
# Two ways to resolve a relative source

A relative source is resolved by comparing texts with the registered files, or by looking at the
files of the project. The texts are normalised before anything is looked up, and the disk is probed
name by name.

**The law** (`Resolver.target_agree`): if the registry lists exactly the files of the project, the
two ways agree on every relative source that leads below the root, unless the disk refuses a path
before it tells of a file. So they give the same dependencies. Both look for the same names in the
same order (`lookedFor`), and a text is registered exactly if a file stands at its names
(`Registry.Lists.has_joined`).

A source that leads to the root itself is resolved on the disk only, and one with a NUL or with too
long a name is refused there (`Resolver.target_of_root`).
-/

namespace JsxOrigin

open Path

namespace FileSystem

/-! ## Files at names -/

/-- A name that a disk can have. -/
structure IsEntryName (name : Text) : Prop extends IsName name where
  sound : nameError? name = none
  notUp : name ≠ up

instance (name : Text) : Decidable (IsEntryName name) :=
  decidable_of_iff
    ((name ≠ [] ∧ name ≠ [.scalar '.'] ∧ .scalar '/' ∉ name) ∧ nameError? name = none ∧ name ≠ up)
    ⟨fun ⟨⟨filled, notDot, noSlash⟩, sound, notUp⟩ =>
        { some := filled, notDot, noSlash, sound, notUp },
      fun isName => ⟨⟨isName.some, isName.notDot, isName.noSlash⟩, isName.sound, isName.notUp⟩⟩

/-- Whether all names on a disk are such that a disk can have. -/
def Named (fs : FileSystem) : Prop :=
  ∀ place entry, (place, entry) ∈ fs.entries → ∀ name ∈ place, IsEntryName name

/-- A path without two dots leads to its names. -/
theorem locate_iff {fs : FileSystem} (wf : fs.WellFormed) (anchor : Anchor) {names : List Text}
    (each : ∀ name ∈ names, IsEntryName name) {place : Place} {entry : Entry} :
    fs.locate ⟨anchor, names⟩ = .ok (place, entry) ↔
      place = names ∧ fs.entry? names = some entry := by
  have sound : (Path.mk anchor names).error? = none :=
    (error?_eq_none_iff _).mpr fun name mem => (each name mem).sound
  constructor
  · intro located
    obtain ⟨-, followed, found⟩ := target_eq_ok_iff.mp (locate_eq_ok_iff.mp located).2
    have folded : up ∉ names := fun isUp => (each up isUp).notUp rfl
    have same : place = names :=
      (follow_eq_foldl followed).trans (foldl_foldStep_of_folded [] folded)
    exact ⟨same, same ▸ found⟩
  · rintro ⟨rfl, found⟩
    by_cases below : place = []
    · subst below
      exact locate_eq_ok_iff.mpr ⟨sound, target_eq_ok_iff.mpr ⟨Nat.zero_le _, rfl, found⟩⟩
    · exact wf.locate_of_mem below (mem_entries_of_entry below found) sound

theorem isFile_iff {fs : FileSystem} (wf : fs.WellFormed) (anchor : Anchor) {names : List Text}
    (each : ∀ name ∈ names, IsEntryName name) :
    fs.leadsToFile ⟨anchor, names⟩ = true ↔ fs.IsFileAt names := by
  simp [leadsToFile_iff, isFile_eq_true_iff, locate_iff wf anchor each, IsFileAt]

theorem isDirectory_iff {fs : FileSystem} (wf : fs.WellFormed) (anchor : Anchor)
    {names : List Text} (each : ∀ name ∈ names, IsEntryName name) :
    fs.isDirectory ⟨anchor, names⟩ = .ok true ↔ fs.IsDirectoryAt names := by
  simp [isDirectory_eq_true_iff, locate_iff wf anchor each, IsDirectoryAt]

theorem Named.of_isFileAt {fs : FileSystem} (named : fs.Named) {place : Place}
    (isFile : fs.IsFileAt place) : ∀ name ∈ place, IsEntryName name := by
  obtain ⟨node, found⟩ := isFile
  exact named place _ (mem_entries_of_entry (ne_nil_of_file found) found)

/-- A file stands in a directory. -/
theorem WellFormed.isDirectoryAt_of_isFileAt {fs : FileSystem} (wf : fs.WellFormed) {place : Place}
    {name : Text} (isFile : fs.IsFileAt (place ++ [name])) : fs.IsDirectoryAt place := by
  obtain ⟨node, found⟩ := isFile
  have below := FileSystem.ne_nil_of_file found
  have directory := wf.parent _ _ (mem_entries_of_entry below found) below
  rwa [List.dropLast_concat] at directory

/-! ## What is looked for -/

theorem sourceEndings_sound :
    ∀ e ∈ sourceEndings, 2 < e.length ∧ .scalar '/' ∉ e ∧ nameError? e = none := by
  decide

theorem nameError?_append {name ending : Text} (sound : nameError? name = none)
    (soundEnding : nameError? ending = none) : nameError? (name ++ ending) = none := by
  rw [nameError?_eq_none_iff] at sound soundEnding ⊢
  simp_all

theorem IsEntryName.extend {name ending : Text} (isName : IsEntryName name)
    (listed : ending ∈ sourceEndings) : IsEntryName (name ++ ending) := by
  obtain ⟨long, noSlash, soundEnding⟩ := sourceEndings_sound ending listed
  have longer : 2 < (name ++ ending).length := by
    rw [List.length_append]
    omega
  have differs : ∀ short : Text, short.length ≤ 2 → name ++ ending ≠ short := by
    rintro short isShort rfl
    omega
  refine { some := differs _ (by decide), notDot := differs _ (by decide), noSlash := ?_,
           sound := nameError?_append isName.sound soundEnding, notUp := differs _ (by decide) }
  rw [List.mem_append, not_or]
  exact ⟨isName.noSlash, noSlash⟩

end FileSystem

open FileSystem

/-- The names that are looked for when names are given: the names themselves, with an ending added,
and with an index file below them. -/
def lookedFor (before : List Text) (last : Text) : List (List Text) :=
  [before ++ [last]] ++ sourceEndings.map (fun ending => before ++ [last ++ ending]) ++
    sourceEndings.map fun ending => before ++ [last, "index" ++ ending]

theorem ne_nil_of_lookedFor {before names : List Text} {last : Text}
    (looked : names ∈ lookedFor before last) : names ≠ [] := by
  simp only [lookedFor, List.mem_append, List.mem_singleton, List.mem_map] at looked
  rintro rfl
  obtain (none | ⟨_, -, none⟩) | ⟨_, -, none⟩ := looked <;> simp at none

theorem isEntryName_of_lookedFor {before names : List Text} {last : Text}
    (eachBefore : ∀ name ∈ before, IsEntryName name) (isLast : IsEntryName last)
    (looked : names ∈ lookedFor before last) : ∀ name ∈ names, IsEntryName name := by
  simp only [lookedFor, List.mem_append, List.mem_singleton, List.mem_map] at looked
  obtain (rfl | ⟨ending, listed, rfl⟩) | ⟨ending, listed, rfl⟩ := looked
  all_goals
    intro name mem
    simp only [List.mem_append, List.mem_cons, List.not_mem_nil, or_false] at mem
  · rcases mem with mem | rfl
    · exact eachBefore name mem
    · exact isLast
  · rcases mem with mem | rfl
    · exact eachBefore name mem
    · exact isLast.extend listed
  · rcases mem with mem | rfl | rfl
    · exact eachBefore name mem
    · exact isLast
    · exact IsEntryName.extend (by decide) listed

/-! ## Where a source leads -/

/-- The names that a source leads to from a file. Two dots are folded as far as there are names
before them. -/
def leadsTo (file source : Text) : List Text :=
  (ofText (Text.normalPath (Text.joinPath (Text.directory file) source))).names

/-- A relative source that leads from a file to a place below the root of the project, by names
that a disk can have. -/
structure LeadsBelow (file source : Text) : Prop where
  relative : Text.startsWith source "." = true
  inside : up ∉ leadsTo file source
  below : leadsTo file source ≠ []
  sound : ∀ name ∈ namesOf source, nameError? name = none

instance (file source : Text) : Decidable (LeadsBelow file source) :=
  decidable_of_iff
    (Text.startsWith source "." = true ∧ up ∉ leadsTo file source ∧ leadsTo file source ≠ [] ∧
      ∀ name ∈ namesOf source, nameError? name = none)
    ⟨fun ⟨relative, inside, below, sound⟩ => { relative, inside, below, sound },
      fun leads => ⟨leads.relative, leads.inside, leads.below, leads.sound⟩⟩

theorem leadsTo_joined {names : List Text} (each : ∀ name ∈ names, IsName name) {source : Text}
    (relative : Text.startsWith source "." = true) :
    leadsTo (joined names) source = normal (names.dropLast ++ namesOf source) := by
  have eachBeside : ∀ name ∈ names.dropLast ++ namesOf source, IsName name :=
    List.forall_mem_append.mpr ⟨fun name mem => each name (List.dropLast_subset _ mem),
      fun name mem => isName_of_mem_ofText (t := source) mem⟩
  rw [leadsTo, Text.normalPath_beside each relative, ofText_text (isName_normal eachBeside)]

namespace LeadsBelow

variable {names : List Text} {source : Text}

/-- A source leads to names that a disk can have. -/
theorem isEntryName (leads : LeadsBelow (joined names) source)
    (each : ∀ name ∈ names, IsEntryName name) :
    ∀ name ∈ leadsTo (joined names) source, IsEntryName name := by
  intro name mem
  have notUp : name ≠ up := by
    rintro rfl
    exact leads.inside mem
  have isName : IsName name := isName_of_mem_ofText mem
  rw [leadsTo_joined (fun name mem => (each name mem).toIsName) leads.relative] at mem
  have sound : nameError? name = none := by
    rcases mem_foldl_normalStep (List.mem_reverse.mp mem) with none | listed
    · cases none
    · rcases List.mem_append.mp listed with beside | inSource
      · exact (each name (List.dropLast_subset _ beside)).sound
      · exact leads.sound name inSource
  exact { toIsName := isName, sound, notUp }

theorem normalPath_eq (leads : LeadsBelow (joined names) source)
    (each : ∀ name ∈ names, IsName name) :
    Text.normalPath (Text.joinPath (Text.directory (joined names)) source) =
      joined (leadsTo (joined names) source) := by
  have below := leads.below
  rw [leadsTo_joined each leads.relative] at below ⊢
  rw [Text.normalPath_beside each leads.relative, text_relative below]

end LeadsBelow

/-! ## By texts -/

namespace Registry

/-- Whether a registry lists exactly the files below a place, each by its names with slashes between
them. -/
def Lists (r : Registry) (fs : FileSystem) (root : Place) : Prop :=
  ∀ t, Table.has t r = true ↔
    ∃ names, names ≠ [] ∧ fs.IsFileAt (root ++ names) ∧ t = joined names

theorem Lists.has_joined {r : Registry} {fs : FileSystem} {root : Place} (lists : r.Lists fs root)
    (named : fs.Named) {names : List Text} (each : ∀ name ∈ names, IsEntryName name)
    (some : names ≠ []) : Table.has (joined names) r = true ↔ fs.IsFileAt (root ++ names) := by
  rw [lists]
  constructor
  · rintro ⟨others, -, isFile, same⟩
    have eachOther := named.of_isFileAt isFile
    have equal : names = others := by
      have read := congrArg namesOf same
      rw [joined, joined, namesOf_join fun name mem => (each name mem).toIsName, namesOf_join
        fun name mem => (eachOther name (List.mem_append_right _ mem)).toIsName] at read
      exact read
    rw [equal]
    exact isFile
  · intro isFile
    exact ⟨names, some, isFile, rfl⟩

/-- No absolute text is registered. -/
theorem Lists.has_absolute {r : Registry} {fs : FileSystem} {root : Place} (lists : r.Lists fs root)
    (named : fs.Named) (names : List Text) : Table.has (Path.text ⟨.root, names⟩) r = false := by
  refine Bool.eq_false_iff.mpr fun registered => ?_
  obtain ⟨others, -, isFile, same⟩ := (lists _).mp registered
  have each := named.of_isFileAt isFile
  exact join_ne_slash (fun name mem => (each name (List.mem_append_right _ mem)).toIsName) _
    same.symm

/-- The candidates of a source are the names that are looked for. -/
theorem candidates_eq {file source : Text} {before : List Text} {last : Text}
    (base : Text.normalPath (Text.joinPath (Text.directory file) source) =
      joined (before ++ [last]))
    (each : ∀ name ∈ before ++ [last], IsName name) :
    candidates file source = (lookedFor before last).map joined := by
  have some : before ++ [last] ≠ [] := by simp
  have index : ∀ ending : Text, Text.joinPath (joined (before ++ [last])) ("index" ++ ending) =
      joined (before ++ [last, "index" ++ ending]) := by
    intro ending
    rw [Text.joinPath_joined each some rfl, ← joined_concat some, List.append_assoc,
      List.singleton_append]
  simp only [candidates, base, lookedFor, index, ← joined_append, List.map_append, List.map_cons,
    List.map_nil, List.map_map, Function.comp_def]

end Registry

/-! ## On the disk -/

namespace Resolver

variable {fs : FileSystem} {root : Place}

theorem withExtension?_concat (anchor : Anchor) (before : List Text) {last : Text}
    (some : last ≠ []) (ending : Text) :
    (Path.mk anchor (before ++ [last])).withExtension? ending =
      Option.some ⟨anchor, before ++ [last ++ ending]⟩ := by
  have name : (Path.mk anchor (before ++ [last])).name = last := by simp [Path.name]
  rw [withExtension?, name, if_neg (by simpa using some), parent, child, List.dropLast_concat]

/-- The paths at which a file is looked for: the path itself, with an ending added, and with an
index file below it if it leads to a directory. -/
def attempts (fs : FileSystem) (p : Path) : List Path :=
  p :: sourceEndings.filterMap p.withExtension? ++
    if (fs.isDirectory p).toOption = some true then
      sourceEndings.map fun ending => p.child ("index" ++ ending)
    else []

/-- **A path is probed** by looking for the first file. -/
theorem probe_eq {p : Path} (named : p.name ≠ []) :
    probe fs p = (fs.firstFile (attempts fs p)).mapError .file := by
  have step : p.withExtension? = fun ending => some (p.parent.child (p.name ++ ending)) := by
    funext ending
    rw [withExtension?, if_neg (by simpa using named)]
  have extended : sourceEndings.mapM p.withExtension? =
      some (sourceEndings.filterMap p.withExtension?) := by
    rw [step, List.filterMap_eq_map']
    exact List.mapM_pure
  rw [probe, extended, attempts, List.cons_append, FileSystem.firstFile, firstFile_append]
  generalize sourceEndings.filterMap p.withExtension? = paths
  cases told : fs.isFile p with
  | error e => rfl
  | ok isFile =>
    cases isFile with
    | true => rfl
    | false =>
      obtain ⟨isDirectory, answer⟩ := isDirectory_of_isFile told
      rw [answer]
      simp only [bind, Except.bind, Except.mapError]
      cases fs.firstFile paths with
      | error e => rfl
      | ok found =>
        cases found with
        | some q => rfl
        | none => cases isDirectory <;> rfl

theorem attempts_concat (fs : FileSystem) (anchor : Anchor) (before : List Text) {last : Text}
    (some : last ≠ []) :
    attempts fs ⟨anchor, before ++ [last]⟩ =
      ⟨anchor, before ++ [last]⟩ ::
        sourceEndings.map (fun ending => ⟨anchor, before ++ [last ++ ending]⟩) ++
        if (fs.isDirectory ⟨anchor, before ++ [last]⟩).toOption = Option.some true then
          sourceEndings.map fun ending => ⟨anchor, before ++ [last] ++ [("index" : Text) ++ ending]⟩
        else [] := by
  rw [attempts, funext (withExtension?_concat anchor before some), List.filterMap_eq_map']
  rfl

/-- **The disk** is searched for the names that are looked for. -/
theorem find?_attempts (wf : fs.WellFormed) (eachRoot : ∀ name ∈ root, IsEntryName name)
    {before : List Text} {last : Text} (each : ∀ name ∈ before ++ [last], IsEntryName name) :
    (attempts fs ⟨.root, root ++ (before ++ [last])⟩).find? fs.leadsToFile =
      ((lookedFor before last).map fun names => ⟨.root, root ++ names⟩).find? fs.leadsToFile := by
  have eachName : ∀ name ∈ root ++ (before ++ [last]), IsEntryName name :=
    List.forall_mem_append.mpr ⟨eachRoot, each⟩
  obtain ⟨eachBefore, eachLast⟩ := List.forall_mem_append.mp each
  have isLast : IsEntryName last := eachLast last List.mem_cons_self
  -- an index file is there only if its directory is
  have inside : (if (fs.isDirectory ⟨.root, root ++ before ++ [last]⟩).toOption = some true then
        sourceEndings.map fun ending =>
          Path.mk .root (root ++ before ++ [last] ++ [("index" : Text) ++ ending])
      else []).find? fs.leadsToFile =
        (sourceEndings.map fun ending =>
          Path.mk .root (root ++ before ++ [last] ++ [("index" : Text) ++ ending])).find?
            fs.leadsToFile := by
    split
    · rfl
    · rename_i noDirectory
      symm
      simp only [List.find?_nil, List.find?_eq_none, List.forall_mem_map]
      intro ending listed isFile
      have eachInside : ∀ name ∈ root ++ before ++ [last] ++ [("index" : Text) ++ ending],
          IsEntryName name := by
        rw [List.append_assoc, List.append_assoc]
        exact List.forall_mem_append.mpr ⟨eachRoot, isEntryName_of_lookedFor eachBefore isLast
          (List.mem_append_right _ (List.mem_map_of_mem listed))⟩
      rw [isFile_iff wf _ eachInside] at isFile
      have directory := wf.isDirectoryAt_of_isFileAt isFile
      rw [List.append_assoc] at directory noDirectory
      rw [(isDirectory_iff wf .root eachName).mpr directory] at noDirectory
      exact noDirectory rfl
  rw [← List.append_assoc, attempts_concat fs .root (root ++ before) isLast.some,
    List.find?_append, inside, ← List.find?_append]
  simp only [lookedFor, List.map_append, List.map_cons, List.map_map, Function.comp_def,
    List.append_assoc, List.cons_append, List.nil_append]

/-- A path without two dots is resolved to itself. -/
theorem resolve_of_folded {names : List Text} (folded : up ∉ names) (directory : Path) :
    (Path.mk .root names).resolve directory = ⟨.root, names⟩ := by
  show Path.mk .root (names.foldl foldStep []) = _
  rw [foldl_foldStep_of_folded [] folded, List.nil_append]

/-- The path of a relative source beside a file. -/
theorem beside_eq (root : Place) {names : List Text} (each : ∀ name ∈ names, IsName name)
    (some : names ≠ []) {source : Text} (relative : Text.startsWith source "." = true) :
    ((Path.mk .root root).join (ofText (joined names))).parent.join (ofText source) =
      ⟨.root, root ++ (names.dropLast ++ namesOf source)⟩ := by
  rw [ofText_joined each some, Text.ofText_relative relative]
  show Path.mk .root ((root ++ names).dropLast ++ namesOf source) = _
  rw [List.dropLast_append_of_ne_nil some, List.append_assoc]

theorem resolve_relative {r : Resolver} {file candidate : Path} {source : Text}
    (relative : Text.startsWith source "." = true)
    (beside : (r.root.join file).parent.join (ofText source) = candidate)
    (sound : candidate.firstError? = none) :
    r.resolve fs file source =
      (probe fs (candidate.resolve r.root)).map (·.map (·.resolve r.root)) := by
  have filled : source.isEmpty = false := by
    obtain ⟨rest, rfl⟩ := Text.eq_dot_of_relative relative
    rfl
  subst beside
  simp only [resolve, filled, relative, sound, if_true]
  cases probe fs (Path.resolve _ r.root) <;> rfl

/-- A path that does not lead above the root is resolved below it. -/
theorem resolve_append (eachRoot : ∀ name ∈ root, IsEntryName name) {names : List Text}
    (inside : up ∉ normal names) (directory : Path) :
    (Path.mk .root (root ++ names)).resolve directory = ⟨.root, root ++ normal names⟩ := by
  have noUp : up ∉ root := fun isUp => (eachRoot up isUp).notUp rfl
  show Path.mk .root ((root ++ names).foldl foldStep []) = _
  rw [List.foldl_append, foldl_foldStep_of_folded [] noUp, List.nil_append, normal,
    ← foldl_foldStep_eq root fun isUp => inside (List.mem_reverse.mpr isUp), List.reverse_nil,
    List.append_nil]

/-- Why the disk does not tell which file a relative source means. -/
def barrier? (fs : FileSystem) (root : Place) (file source : Text) : Option FileError :=
  fs.obstacle? (attempts fs ⟨.root, root ++ leadsTo file source⟩)

/-- **A relative source is looked for** at the names that it leads to. -/
theorem resolve_beside (wf : fs.WellFormed) (eachRoot : ∀ name ∈ root, IsEntryName name)
    {names : List Text} (each : ∀ name ∈ names, IsEntryName name) (filled : names ≠ [])
    {source : Text} (leads : LeadsBelow (joined names) source) {before : List Text} {last : Text}
    (leadsTo_eq : leadsTo (joined names) source = before ++ [last]) :
    (ofAliases ⟨.root, root⟩ []).resolve fs (ofText (joined names)) source =
      match barrier? fs root (joined names) source with
      | some e => .error (.file e)
      | none => .ok (((lookedFor before last).map fun names => ⟨.root, root ++ names⟩).find?
          fs.leadsToFile) := by
  have eachName : ∀ name ∈ names, IsName name := fun name mem => (each name mem).toIsName
  have eachLed : ∀ name ∈ before ++ [last], IsEntryName name :=
    leadsTo_eq ▸ leads.isEntryName each
  obtain ⟨eachBefore, eachLast⟩ := List.forall_mem_append.mp eachLed
  have isLast : IsEntryName last := eachLast last List.mem_cons_self
  have inside := leads.inside
  rw [barrier?, leadsTo_eq]
  rw [leadsTo_joined eachName leads.relative] at leadsTo_eq inside
  have sound : (Path.mk .root (root ++ (names.dropLast ++ namesOf source))).firstError? = none := by
    rw [firstError?, List.findSome?_eq_none_iff]
    simp only [List.mem_append]
    rintro name (inRoot | beside | inSource)
    · exact (eachRoot name inRoot).sound
    · exact (each name (List.dropLast_subset _ beside)).sound
    · exact leads.sound name inSource
  have named : (Path.mk .root (root ++ (before ++ [last]))).name ≠ [] := by
    simpa [Path.name] using isLast.some
  have resolved : (Path.mk .root (root ++ (names.dropLast ++ namesOf source))).resolve
      ⟨.root, root⟩ = ⟨.root, root ++ (before ++ [last])⟩ := by
    rw [resolve_append eachRoot inside, leadsTo_eq]
  rw [resolve_relative leads.relative (beside_eq root eachName filled leads.relative) sound]
  show (probe fs (Path.resolve _ ⟨.root, root⟩)).map _ = _
  rw [resolved, probe_eq named, firstFile_eq]
  cases fs.obstacle? (attempts fs ⟨.root, root ++ (before ++ [last])⟩) with
  | some e => rfl
  | none =>
    dsimp only
    rw [find?_attempts wf eachRoot eachLed]
    -- what is found has no two dots left, so resolving it once more does nothing
    cases found : ((lookedFor before last).map fun names => ⟨.root, root ++ names⟩).find?
        fs.leadsToFile with
    | none => rfl
    | some path =>
      obtain ⟨led, looked, rfl⟩ := List.mem_map.mp (List.mem_of_find?_eq_some found)
      have eachFound : ∀ name ∈ root ++ led, IsEntryName name :=
        List.forall_mem_append.mpr ⟨eachRoot, isEntryName_of_lookedFor eachBefore isLast looked⟩
      show Except.ok (some ((Path.mk .root (root ++ led)).resolve _)) = _
      rw [resolve_of_folded fun isUp => (eachFound up isUp).notUp rfl]

/-- What is left below the root. -/
theorem below?_append (anchor : Anchor) (root names : List Text) :
    (Path.mk anchor (root ++ names)).below? ⟨anchor, root⟩ = some names := by
  rw [below?, if_pos ⟨rfl, List.isPrefixOf_iff_prefix.mpr (List.prefix_append _ _)⟩]
  exact congrArg some List.drop_left

variable {registry : Registry}

/-- **The target of a relative source** is the first registered file that is looked for, if the disk
tells. -/
theorem target_beside (wf : fs.WellFormed) (named : fs.Named) (lists : registry.Lists fs root)
    {names : List Text} (isFile : fs.IsFileAt (root ++ names)) (filled : names ≠ [])
    {source : Text} (leads : LeadsBelow (joined names) source) {before : List Text} {last : Text}
    (leadsTo_eq : leadsTo (joined names) source = before ++ [last]) :
    (ofAliases ⟨.root, root⟩ []).target fs registry (joined names) (.str source) =
      match barrier? fs root (joined names) source with
      | some e => .error (.file e)
      | none => .ok (((lookedFor before last).find? fun led => Table.has (joined led) registry).map
          joined) := by
  obtain ⟨eachRoot, each⟩ := List.forall_mem_append.mp (named.of_isFileAt isFile)
  obtain ⟨eachBefore, eachLast⟩ := List.forall_mem_append.mp
    (leadsTo_eq ▸ leads.isEntryName each)
  have eachLooked : ∀ led ∈ lookedFor before last, ∀ name ∈ led, IsEntryName name := fun _ =>
    isEntryName_of_lookedFor eachBefore (eachLast last List.mem_cons_self)
  -- a file stands at names that are looked for if and only if their text is registered
  have registered : ∀ led ∈ lookedFor before last,
      (fs.leadsToFile ∘ fun led => ⟨.root, root ++ led⟩) led =
        Table.has (joined led) registry := by
    intro led looked
    rw [Bool.eq_iff_iff, Function.comp_apply,
      isFile_iff wf _ (List.forall_mem_append.mpr ⟨eachRoot, eachLooked led looked⟩),
      lists.has_joined named (eachLooked led looked) (ne_nil_of_lookedFor looked)]
  have resolved := resolve_beside wf eachRoot each filled leads leadsTo_eq
  rw [List.find?_map, List.find?_congr registered] at resolved
  rw [target, resolved]
  cases barrier? fs root (joined names) source with
  | some e => rfl
  | none =>
    cases found : (lookedFor before last).find? fun led => Table.has (joined led) registry with
    | none => rfl
    | some led =>
      have shown := text_relative (ne_nil_of_lookedFor (List.mem_of_find?_eq_some found))
      have has := List.find?_some found
      have below := below?_append .root root led
      simp only [Option.map_some, bind, Except.bind, lists.has_absolute named, ofAliases,
        Bool.false_eq_true, if_false, below, shown, has, if_true, List.foldl_nil]
      rfl

end Resolver

/-- The target of a relative source by texts is the same one. -/
theorem Registry.target?_beside {names : List Text} (each : ∀ name ∈ names, IsEntryName name)
    {source : Text} (leads : LeadsBelow (joined names) source) {before : List Text} {last : Text}
    (leadsTo_eq : leadsTo (joined names) source = before ++ [last]) (r : Registry) :
    r.target? (joined names) source =
      ((lookedFor before last).find? fun led => Table.has (joined led) r).map joined := by
  have base := leads.normalPath_eq fun name mem => (each name mem).toIsName
  rw [leadsTo_eq] at base
  have eachLed : ∀ name ∈ before ++ [last], IsName name := fun name mem =>
    (leads.isEntryName each name (leadsTo_eq ▸ mem)).toIsName
  rw [target?, if_pos leads.relative, candidates_eq base eachLed, List.find?_map]
  rfl

/-! ## Dependencies -/

namespace Registry

/-- What is taken by any module, each with its file. -/
def rows (r : Registry) : List (Text × DependencyKind × Json × Json) :=
  r.entries.flatMap fun (file, g) => (takes g).map (file, ·)

/-- Adds the dependency of a row, if its source means another file. -/
def addRow {ε : Type} (resolve : Text → Json → Except ε (Option Text)) (ds : List Dependency) :
    Text × DependencyKind × Json × Json → Except ε (List Dependency)
  | (file, kind, source, name) => do
    match ← resolve file source with
    | some target => return if target = file then ds else addDependency kind file target name ds
    | none => return ds

theorem mem_rows {r : Registry} {row : Text × DependencyKind × Json × Json} (mem : row ∈ r.rows) :
    ∃ g, (row.1, g) ∈ r ∧ row.2 ∈ takes g := by
  obtain ⟨⟨file, g⟩, entered, isRow⟩ := List.mem_flatMap.mp mem
  obtain ⟨take, isTaken, rfl⟩ := List.mem_map.mp isRow
  exact ⟨g, List.mem_mergeSort.mp entered, isTaken⟩

theorem dependencies_of_rows {ε : Type} {resolve : Text → Json → Except ε (Option Text)}
    {r : Registry} {found : List Dependency}
    (reached : r.rows.foldlM (addRow resolve) [] = .ok found) :
    r.dependencies resolve = .ok
      { nodes := r.files
        edges := found.mergeSort fun a b =>
          if a.source = b.source then Text.le a.target b.target
          else Text.le a.source b.source } := by
  show (r.rows.foldlM (addRow resolve) [] >>= fun ds => _) = _
  rw [reached]
  rfl

/-- Steps that succeed alike lead to the same state. -/
theorem foldlM_agree {α β ε δ : Type} {step : β → α → Except ε β} {other : β → α → Except δ β}
    {rows : List α}
    (agree : ∀ row ∈ rows, ∀ state, ∃ next, step state row = .ok next ∧ other state row = .ok next)
    (start : β) :
    ∃ last, rows.foldlM step start = .ok last ∧ rows.foldlM other start = .ok last := by
  induction rows generalizing start with
  | nil => exact ⟨start, rfl, rfl⟩
  | cons row rest ih =>
    obtain ⟨next, stepped, otherStepped⟩ := agree row List.mem_cons_self start
    obtain ⟨last, reached, otherReached⟩ :=
      ih (fun row mem => agree row (List.mem_cons_of_mem _ mem)) next
    refine ⟨last, ?_, ?_⟩
    · rw [List.foldlM_cons, stepped]
      exact reached
    · rw [List.foldlM_cons, otherStepped]
      exact otherReached

/-- Two ways of resolving that agree on what the modules take from give the same dependencies. -/
theorem dependencies_congr {ε δ : Type} {r : Registry}
    {resolve : Text → Json → Except ε (Option Text)}
    {other : Text → Json → Except δ (Option Text)}
    (agree : ∀ file g, (file, g) ∈ r → ∀ kind source name, (kind, source, name) ∈ takes g →
      ∃ target, resolve file source = .ok target ∧ other file source = .ok target) :
    ∃ graph, r.dependencies resolve = .ok graph ∧ r.dependencies other = .ok graph := by
  have step : ∀ row ∈ r.rows, ∀ ds, ∃ next,
      addRow resolve ds row = .ok next ∧ addRow other ds row = .ok next := by
    rintro ⟨file, kind, source, name⟩ mem ds
    obtain ⟨g, registered, isTaken⟩ := mem_rows mem
    obtain ⟨target, resolved, otherResolved⟩ := agree file g registered kind source name isTaken
    rw [addRow, addRow, resolved, otherResolved]
    cases target <;> exact ⟨_, rfl, rfl⟩
  obtain ⟨found, reached, otherReached⟩ := foldlM_agree step []
  exact ⟨_, dependencies_of_rows reached, dependencies_of_rows otherReached⟩

/-- A way of resolving that is only asked for some sources. -/
def onlyFor {ε : Type} (isAsked : Text → Text → Bool)
    (resolve : Text → Json → Except ε (Option Text)) (file : Text) : Json → Except ε (Option Text)
  | .str source => if isAsked file source then resolve file (.str source) else .ok none
  | _ => .ok none

end Registry

namespace Resolver

/-- Whether a source leads below the root and the disk tells which file it means. -/
def isTold (fs : FileSystem) (root : Place) (file source : Text) : Bool :=
  LeadsBelow file source ∧ barrier? fs root file source = none

/-- **One source.** Texts and the disk give the same target for a source that leads below the root,
if the disk tells. -/
theorem target_of_leadsBelow {fs : FileSystem} (wf : fs.WellFormed) (named : fs.Named)
    {root : Place} {registry : Registry} (lists : registry.Lists fs root) {file source : Text}
    (registered : Table.has file registry = true) (leads : LeadsBelow file source) :
    (ofAliases ⟨.root, root⟩ []).target fs registry file (.str source) =
      match barrier? fs root file source with
      | some e => .error (.file e)
      | none => .ok (registry.target? file source) := by
  obtain ⟨names, filled, isFile, rfl⟩ := (lists file).mp registered
  obtain none | ⟨before, last, leadsTo_eq⟩ := eq_nil_or_append (leadsTo (joined names) source)
  · exact absurd none leads.below
  have each := (List.forall_mem_append.mp (named.of_isFileAt isFile)).2
  rw [Registry.target?_beside each leads leadsTo_eq]
  exact target_beside wf named lists isFile filled leads leadsTo_eq

/-- **Two ways to resolve.** If a registry lists exactly the files of a project, texts and the disk
give the same target for every relative source that leads below the root, unless the disk refuses a
path before it tells of a file, which is then the answer. So the dependencies for the sources that
it tells about are the same, and all dependencies are if other sources are names that the project
does not have. -/
theorem target_agree {fs : FileSystem} (wf : fs.WellFormed) (named : fs.Named) {root : Place}
    {registry : Registry} (lists : registry.Lists fs root) :
    let onDisk := (ofAliases ⟨.root, root⟩ []).target fs registry
    (∀ file source, Table.has file registry = true → LeadsBelow file source →
      (barrier? fs root file source = none →
        onDisk file (.str source) = .ok (registry.target? file source)) ∧
      ∀ e, barrier? fs root file source = some e →
        onDisk file (.str source) = .error (.file e)) ∧
    (∃ graph, registry.dependencies (Registry.onlyFor (isTold fs root) onDisk) = .ok graph ∧
      registry.dependencies (Registry.onlyFor (isTold fs root) registry.resolveText) =
        .ok graph) ∧
    ((∀ file g, (file, g) ∈ registry → ∀ kind source name,
        (kind, source, name) ∈ Registry.takes g → ∃ t, source = .str t ∧
          (isTold fs root file t = true ∨
            Text.startsWith t "." = false ∧ onDisk file source = .ok none)) →
      ∃ graph, registry.dependencies onDisk = .ok graph ∧
        registry.dependencies registry.resolveText = .ok graph) := by
  intro onDisk
  have told : ∀ {file g}, (file, g) ∈ registry → ∀ {source}, isTold fs root file source = true →
      onDisk file (.str source) = .ok (registry.target? file source) := by
    intro file g mem source isTold
    obtain ⟨leads, unbarred⟩ := decide_eq_true_iff.mp isTold
    have agree := target_of_leadsBelow wf named lists
      (Table.mem_keys_iff.mp (Table.mem_keys mem)) leads
    rwa [unbarred] at agree
  refine ⟨?_, Registry.dependencies_congr ?_, fun taken => Registry.dependencies_congr ?_⟩
  · intro file source registered leads
    have agree := target_of_leadsBelow wf named lists registered leads
    constructor
    · intro unbarred
      rwa [unbarred] at agree
    · intro e barred
      rwa [barred] at agree
  · intro file g mem kind source name _
    cases source with
    | str t =>
      cases isTold : isTold fs root file t with
      | true =>
        refine ⟨registry.target? file t, ?_, ?_⟩
        · rw [Registry.onlyFor, if_pos isTold, told mem isTold]
        · rw [Registry.onlyFor, if_pos isTold, Registry.resolveText]
      | false => refine ⟨none, ?_, ?_⟩ <;> simp [Registry.onlyFor, isTold]
    | _ => exact ⟨none, rfl, rfl⟩
  · intro file g mem kind source name isTaken
    obtain ⟨t, rfl, isTold | ⟨notRelative, nothing⟩⟩ := taken file g mem kind source name isTaken
    · exact ⟨registry.target? file t, told mem isTold, rfl⟩
    · refine ⟨none, nothing, ?_⟩
      rw [Registry.resolveText, Registry.target?, if_neg (by simp [notRelative])]

/-! ## A project with an index file at its root -/

/-- A project with an index file at its root and a module below it. -/
def layered : FileSystem where
  entries :=
    [(["p"], .directory 1 (.moment 0)), (["p", "index.js"], .file ⟨2, .moment 0, .data ⟨[], none⟩⟩),
      (["p", "src"], .directory 3 (.moment 0)),
      (["p", "src", "a.js"], .file ⟨4, .moment 0, .data ⟨[], none⟩⟩)]

/-- Its modules. The one below the root imports from the index file. -/
def layeredModules : Registry :=
  [("index.js", { file := .str "index.js" }),
    ("src/a.js",
      { file := .str "src/a.js", imports := [⟨.str "x", .str "x", .str "../index", .str ""⟩] })]

theorem layered_named : layered.Named := by
  have each : ∀ e ∈ layered.entries, ∀ name ∈ e.1, IsEntryName name := by decide
  exact fun place entry mem => each (place, entry) mem

theorem layered_wellFormed : layered.WellFormed where
  once := by decide
  parent := by
    rintro place entry (_ | ⟨_, _ | ⟨_, _ | ⟨_, _ | ⟨_, ⟨⟩⟩⟩⟩⟩) - <;> exact ⟨_, _, rfl⟩
  folded place entry mem := fun isUp => (layered_named place entry mem up isUp).notUp rfl
  admitted place entry mem := by
    refine ⟨fun _ isClosed => absurd isClosed List.not_mem_nil, ?_, ?_⟩
    · have each : ∀ e ∈ layered.entries, ∀ name ∈ e.1, nameSize name ≤ longestName := by decide
      exact each (place, entry) mem
    · have each : ∀ e ∈ layered.entries, size e.1 ≤ longestPath := by decide
      exact each (place, entry) mem
  allowed place entry mem := by
    have each : ∀ name ∈ place, IsFileName name := fun name inPlace =>
      have isName := layered_named place entry mem name inPlace
      ⟨isName.noSlash, isName.sound⟩
    rcases mem with _ | ⟨_, _ | ⟨_, _ | ⟨_, _ | ⟨_, ⟨⟩⟩⟩⟩⟩
    · trivial
    · exact ⟨nofun, each⟩
    · trivial
    · exact ⟨nofun, each⟩

theorem layered_lists : layeredModules.Lists layered ["p"] := by
  intro t
  constructor
  · intro registered
    rcases Table.mem_keys_iff.mpr registered with _ | ⟨_, _ | ⟨_, ⟨⟩⟩⟩
    · exact ⟨["index.js"], nofun, ⟨_, rfl⟩, rfl⟩
    · exact ⟨["src", "a.js"], nofun, ⟨_, rfl⟩, rfl⟩
  · rintro ⟨names, some, ⟨node, found⟩, rfl⟩
    have mem := mem_entries_of_entry (ne_nil_of_file found) found
    rcases mem with _ | ⟨_, _ | ⟨_, _ | ⟨_, _ | ⟨_, ⟨⟩⟩⟩⟩⟩
    · rfl
    · rfl

theorem target_agree_layered :
    let onDisk := (ofAliases ⟨.root, ["p"]⟩ []).target layered layeredModules
    let graph : DependencyGraph :=
      { nodes := ["index.js", "src/a.js"]
        edges := [⟨"src/a.js", "index.js", .imports, [.str "x"]⟩] }
    layered.WellFormed ∧ layered.Named ∧ layeredModules.Lists layered ["p"] ∧
      LeadsBelow "src/a.js" "../index" ∧ barrier? layered ["p"] "src/a.js" "../index" = none ∧
      onDisk "src/a.js" (.str "../index") = .ok (some (.ofString "index.js")) ∧
      layeredModules.target? "src/a.js" "../index" = some (.ofString "index.js") ∧
      layeredModules.dependencies onDisk = .ok graph ∧
      layeredModules.dependencies layeredModules.resolveText = .ok graph := by
  intro onDisk graph
  have leads : LeadsBelow "src/a.js" "../index" := by decide
  have unbarred : barrier? layered ["p"] "src/a.js" "../index" = none := by decide
  have target : layeredModules.target? "src/a.js" "../index" = some (.ofString "index.js") := by
    decide
  have sorted : layeredModules.Pairwise fun a b => Text.le a.1 b.1 = true := by
    rw [layeredModules, List.pairwise_pair]
    decide
  have rows : layeredModules.rows =
      [(.ofString "src/a.js", .imports, .str "../index", .str "x")] := by
    rw [Registry.rows, Registry.entries, List.mergeSort_of_pairwise sorted]
    rfl
  have byText : layeredModules.dependencies layeredModules.resolveText = .ok graph := by
    have reached : layeredModules.rows.foldlM (Registry.addRow layeredModules.resolveText) [] =
        .ok graph.edges := by
      rw [rows]
      rfl
    have sortedFiles : layeredModules.files = graph.nodes :=
      List.mergeSort_of_pairwise (List.pairwise_map.mpr sorted)
    rw [Registry.dependencies_of_rows reached, List.mergeSort_singleton, sortedFiles]
  obtain ⟨agree, -, all⟩ := target_agree layered_wellFormed layered_named layered_lists
  obtain ⟨found, disk, text⟩ := all <| by
    rintro file g (_ | ⟨_, _ | ⟨_, ⟨⟩⟩⟩) kind source name (_ | ⟨_, ⟨⟩⟩)
    exact ⟨_, rfl, .inl (decide_eq_true ⟨leads, unbarred⟩)⟩
  have same : found = graph := Except.ok.inj (text.symm.trans byText)
  exact ⟨layered_wellFormed, layered_named, layered_lists, leads, unbarred,
    target ▸ (agree _ _ rfl leads).1 unbarred, target, same ▸ disk, byText⟩

/-- A source with a name that is too long for any disk. -/
def longSource : Text := Text.ofString "./" ++ List.replicate 300 (.scalar 'a')

/-- **Outside the law.** A source that leads to the root itself means the index file on the disk and
nothing by texts. One that holds a NUL or too long a name is refused on the disk and means nothing
by texts. -/
theorem target_of_root :
    let onDisk := (ofAliases ⟨.root, ["p"]⟩ []).target layered layeredModules
    layered.WellFormed ∧ layered.Named ∧ layeredModules.Lists layered ["p"] ∧
      Table.has (.ofString "src/a.js") layeredModules = true ∧
      up ∉ leadsTo "src/a.js" ".." ∧
      onDisk "src/a.js" (.str "..") = .ok (some (.ofString "index.js")) ∧
      layeredModules.target? "src/a.js" ".." = none ∧
      up ∉ leadsTo "src/a.js" "./a\x00" ∧
      onDisk "src/a.js" (.str "./a\x00") = .error (.path .embeddedNul) ∧
      layeredModules.target? "src/a.js" "./a\x00" = none ∧
      up ∉ leadsTo "src/a.js" longSource ∧
      onDisk "src/a.js" (.str longSource) = .error (.file .tooLong) ∧
      layeredModules.target? "src/a.js" longSource = none := by
  intro onDisk
  have barred : barrier? layered ["p"] "src/a.js" longSource = some .tooLong := by decide +kernel
  have leads : LeadsBelow "src/a.js" longSource := by decide +kernel
  have registered : Table.has (.ofString "src/a.js") layeredModules = true := rfl
  have refused := target_of_leadsBelow layered_wellFormed layered_named layered_lists registered
    leads
  rw [barred] at refused
  exact ⟨layered_wellFormed, layered_named, layered_lists, registered, by decide, rfl, by decide,
    by decide, rfl, by decide, leads.inside, refused, by decide +kernel⟩

end Resolver

end JsxOrigin
