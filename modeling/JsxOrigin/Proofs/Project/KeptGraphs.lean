import JsxOrigin.Proofs.ModuleGraph.RoundTrip
import JsxOrigin.Proofs.Project.SourceFiles
import JsxOrigin.Proofs.Storage.OpenStore

/-!
# What stores keep

A store is truthful about a project if each text that it would give for a mark is the text of the
graph of a source file, made from data that the file had while it had that mark
(`GraphStore.Truthful`). Which data a path has shown with which mark is left open here, as a
relation `known`.

**The law** (`FileSystem.keptGraph_eq`): if a mark tells what a file holds, then the graph that a
truthful store gives for the file is its graph, with the surrogate pairs of the fields joined.
-/

namespace JsxOrigin

/-! ## Graphs of files -/

/-- The module that data make, with its path as it is shown. -/
def SourceModule.ofData (names : List Text) (d : FileData) : SourceModule where
  source := { file := Scan.shown names, bytes := d.bytes }
  root := d.tree.getD (.emptyModule d.bytes.length)

/-- The graph that a scan makes of a module. -/
def SourceModule.scanned (m : SourceModule) : ModuleGraph Json := (m.analyse none false).graph

theorem SourceModule.scanned_eq (m : SourceModule) :
    m.scanned = (m.source.moduleGraph m.root).map .str := rfl

theorem SourceModule.graphOfText_scanned (m : SourceModule) :
    FileSystem.graphOfText m.scanned.toJson.render = .ok (some (m.scanned.map Json.joined)) := by
  rw [scanned_eq]
  exact FileSystem.graphOfText_render _

/-- A graph whose pairs are joined has none left to join. -/
theorem SourceModule.joined_scanned (m : SourceModule) :
    (m.scanned.map Json.joined).map Json.joined = m.scanned.map Json.joined := by
  have twice : Json.joined ∘ Json.joined ∘ Json.str = Json.joined ∘ Json.str := by
    funext t
    simp only [Function.comp_apply, Json.joined, Text.joinPairs_joinPairs]
  simp only [scanned_eq, ModuleGraph.map_map]
  exact congrArg (fun f => ModuleGraph.map f _) twice

/-- A file is a module if it is in a known language and not sealed. -/
theorem FileSystem.module?_eq {fs : FileSystem} {root : Path} {names : List Text} {place : Place}
    {mark : Mark} {d : FileData} (stands : fs.Stands (Scan.absolute root names) place mark d) :
    fs.module? (Scan.absolute root names) (Scan.shown names) =
      .ok (if (Language.ofPath? (Scan.absolute root names)).isSome && !fs.sealed.contains place then
        some (SourceModule.ofData names d) else none) := by
  rw [module?, stands.data]
  cases Language.ofPath? (Scan.absolute root names) with
  | none => rfl
  | some _ => cases fs.sealed.contains place <;> rfl

namespace GraphStore

/-! ## Truthful stores -/

theorem text?_keep_self (s : GraphStore) (key : Text) (mark other : Mark) (t : Text) :
    (s.keep key mark t).text? key other = if mark = other then some t else none := by
  simp [text?, keep, isCurrent]

theorem text?_keep_of_ne (s : GraphStore) {key other : Text} (differs : other ≠ key) (mark m : Mark)
    (t : Text) : (s.keep key mark t).text? other m = s.text? other m := by
  simp [text?, keep, isCurrent, Table.get?_set_of_ne differs]

theorem text?_of_drop {s : GraphStore} {key other : Text} {mark : Mark} {t : Text}
    (found : (s.drop key).text? other mark = some t) : s.text? other mark = some t := by
  by_cases same : other = key
  · simp [text?, isCurrent, drop, Table.get?_erase, same] at found
  · simpa [text?, isCurrent, drop, Table.get?_erase, same] using found

/-- A source file whose graph can be kept: what its path is made of, and that it is known to have
shown some data with a mark. -/
structure Attested (known : Path → Mark → FileData → Prop) (root : Path) (names : List Text)
    (mark : Mark) (d : FileData) : Prop where
  below : root.names ++ names ≠ []
  clean : ∀ name ∈ root.names ++ names, .scalar '/' ∉ name
  language : (Language.ofPath? (Scan.absolute root names)).isSome
  shown : known (Scan.absolute root names) mark d

/-- Whether each text of a store is that of the graph of a source file, made from data that the file
had while it had the mark. -/
def Truthful (known : Path → Mark → FileData → Prop) (root : Path) (s : GraphStore) : Prop :=
  ∀ key mark t, s.text? key mark = some t → ∃ names d, Attested known root names mark d ∧
    key = (Scan.absolute root names).text ∧
    t = (SourceModule.ofData names d).scanned.toJson.render

variable {known : Path → Mark → FileData → Prop} {root : Path} {s : GraphStore}

theorem truthful_empty : Truthful known root {} := by
  intro key mark t found
  cases found

theorem Truthful.drop (truthful : s.Truthful known root) (key : Text) :
    (s.drop key).Truthful known root :=
  fun other mark t found => truthful other mark t (text?_of_drop found)

theorem Truthful.keep (truthful : s.Truthful known root) {names : List Text} {mark : Mark}
    {d : FileData} (attested : Attested known root names mark d) :
    (s.keep (Scan.absolute root names).text mark
      (SourceModule.ofData names d).scanned.toJson.render).Truthful known root := by
  intro key other t found
  by_cases same : key = (Scan.absolute root names).text
  · subst same
    rw [text?_keep_self] at found
    split at found
    · rename_i sameMark
      subst sameMark
      cases found
      exact ⟨names, d, attested, rfl, rfl⟩
    · cases found
  · rw [text?_keep_of_ne s same] at found
    exact truthful key other t found

end GraphStore

namespace FileSystem

variable {known : Path → Mark → FileData → Prop} {root : Path}

/-- Whether all that a disk shows is known. -/
def KnownBy (fs : FileSystem) (known : Path → Mark → FileData → Prop) : Prop :=
  ∀ path mark d, fs.Shows path mark d → known path mark d

/-- Whether a mark tells what a file holds. -/
def Unambiguous (known : Path → Mark → FileData → Prop) : Prop :=
  ∀ path mark d d', known path mark d → known path mark d' → d = d'

/-- The data in the files of a disk, with the marks of the files. -/
def markedData (fs : FileSystem) : List (Mark × FileData) :=
  fs.entries.filterMap fun e =>
    match e.2 with
    | .file ⟨_, changed, .data d⟩ => some ({ changed, size := d.bytes.length }, d)
    | _ => none

theorem Shows.mem_markedData {fs : FileSystem} {path : Path} {mark : Mark} {d : FileData}
    (shows : fs.Shows path mark d) : (mark, d) ∈ fs.markedData := by
  obtain ⟨place, number, changed, located, -⟩ := locate_of_data? shows.data
  have found := entry?_of_locate located
  have isMark := shows.mark
  rw [FileSystem.mark, located] at isMark
  cases isMark
  exact List.mem_filterMap.mpr ⟨_, mem_entries_of_entry (ne_nil_of_file found) found, rfl⟩

/-- Marks that tell the data of any file tell those of each path. -/
theorem unambiguous_of_markedData {disks : List FileSystem}
    (told : ∀ a ∈ disks.flatMap markedData, ∀ b ∈ disks.flatMap markedData, a.1 = b.1 → a.2 = b.2) :
    Unambiguous fun path mark d => ∃ fs ∈ disks, fs.Shows path mark d := by
  rintro path mark d d' ⟨fs, mem, shows⟩ ⟨fs', mem', shows'⟩
  exact told (mark, d) (List.mem_flatMap.mpr ⟨fs, mem, shows.mem_markedData⟩) (mark, d')
    (List.mem_flatMap.mpr ⟨fs', mem', shows'.mem_markedData⟩) rfl

theorem markOf_of_mark {fs : FileSystem} {path : Path} {mark : Mark}
    (marked : fs.mark path = .ok (some mark)) : fs.markOf path = .ok (some mark) := by
  rw [FileSystem.markOf, marked]
  rfl

theorem storeKey_of_encodable {path : Path} (encodable : path.text.hasSurrogate = false) :
    storeKey path = .ok path.text := by
  rw [storeKey, encodable]
  rfl

/-- What a truthful store gives for a source file: nothing if it has no text for the mark, and
otherwise the graph of data that the file is known to have had. -/
theorem keptGraph_cases {fs : FileSystem} {held : OpenStore} {s : GraphStore} {names : List Text}
    {mark : Mark} (truthful : s.Truthful known root) (read : fs.readStore held = .ok s)
    (below : root.names ++ names ≠ [])
    (clean : ∀ name ∈ root.names ++ names, .scalar '/' ∉ name)
    (encodable : (Scan.absolute root names).text.hasSurrogate = false)
    (isMark : fs.mark (Scan.absolute root names) = .ok (some mark)) :
    (s.text? (Scan.absolute root names).text mark = none ∧
      fs.keptGraph held (Scan.absolute root names) = .ok none) ∨
      ∃ d', GraphStore.Attested known root names mark d' ∧
        (s.text? (Scan.absolute root names).text mark).isSome ∧
        fs.keptGraph held (Scan.absolute root names) =
          .ok (some ((SourceModule.ofData names d').scanned.map Json.joined)) := by
  have marked := markOf_of_mark isMark
  have isKey := storeKey_of_encodable encodable
  cases kept : s.text? (Scan.absolute root names).text mark with
  | none =>
    refine .inl ⟨rfl, ?_⟩
    simp only [keptGraph, marked, read, isKey, bind, Except.bind, kept]
    rfl
  | some t =>
    have given : fs.keptGraph held (Scan.absolute root names) = graphOfText t := by
      simp only [keptGraph, marked, read, isKey, bind, Except.bind, kept]
    obtain ⟨others, d', attested, sameText, rfl⟩ := truthful _ _ _ kept
    -- the text of a path tells the file
    have same : names = others :=
      List.append_cancel_left
        (Path.text_injective below attested.below clean attested.clean sameText)
    subst same
    exact .inr ⟨d', attested, rfl, given.trans (SourceModule.graphOfText_scanned _)⟩

/-- **Kept graphs.** The graph that a truthful store gives for a source file is the graph of the
module that the file holds, with joined fields. -/
theorem keptGraph_eq {fs : FileSystem} {held : OpenStore} {s : GraphStore} {names : List Text}
    {mark : Mark} {d : FileData} (unambiguous : Unambiguous known)
    (truthful : s.Truthful known root) (read : fs.readStore held = .ok s)
    (below : root.names ++ names ≠ []) (clean : ∀ name ∈ root.names ++ names, .scalar '/' ∉ name)
    (encodable : (Scan.absolute root names).text.hasSurrogate = false)
    (isMark : fs.mark (Scan.absolute root names) = .ok (some mark))
    (isKnown : known (Scan.absolute root names) mark d) :
    fs.keptGraph held (Scan.absolute root names) = .ok none ∨
      ((Language.ofPath? (Scan.absolute root names)).isSome ∧
        fs.keptGraph held (Scan.absolute root names) =
          .ok (some ((SourceModule.ofData names d).scanned.map Json.joined))) := by
  rcases keptGraph_cases truthful read below clean encodable isMark with
    ⟨-, nothing⟩ | ⟨d', attested, -, given⟩
  · exact .inl nothing
  · -- the mark tells the data
    have sameData : d = d' := unambiguous _ _ _ _ isKnown attested.shown
    subst sameData
    exact .inr ⟨attested.language, given⟩

/-- A graph can be kept under every path that a store takes for a key. -/
theorem keepGraph_of_holds {fs : FileSystem} {held : OpenStore} {s : GraphStore} {path : Path}
    {mark : Mark} (holds : fs.Holds held s) (encodable : path.text.hasSurrogate = false)
    (isMark : fs.mark path = .ok (some mark)) (g : ModuleGraph Json) :
    ∃ fs', fs.keepGraph held path g = .ok fs' ∧
      fs'.Holds held (s.keep path.text mark g.toJson.render) := by
  obtain ⟨fs', written, holds'⟩ := holds.writeStore (s.keep path.text mark g.toJson.render)
  refine ⟨fs', ?_, holds'⟩
  rw [holds.keepGraph isMark (storeKey_of_encodable encodable), written]

end FileSystem

end JsxOrigin
