import JsxOrigin.Proofs.ModuleGraph.RoundTrip
import JsxOrigin.Proofs.Storage.OpenStore

/-!
# Laws of kept graphs

What a held store does with the graph of one path. A graph whose fields hold no surrogates is read
back from the text that is kept for it (`PlainGraph.graphOfText_render`). A path whose text holds no
NUL and no surrogate (`IsKeyText`) can be the key of a store and has a mark exactly if something
stands there (`FileSystem.mark_cases`), so keeping, dropping and asking come down to what the two
tables of the store have for its text (`GraphStore.kept`).
-/

namespace JsxOrigin

/-! ## Plain graphs -/

namespace ModuleGraph

variable {α β : Type}

/-- All fields of a graph. -/
def fields (g : ModuleGraph α) : List α :=
  g.file :: g.imports.flatMap (fun r => [r.localName, r.imported, r.source, r.span]) ++
    g.exports.flatMap (fun r => [r.exported, r.localName, r.span]) ++
    g.reexports.flatMap (fun r => [r.exported, r.imported, r.source, r.span]) ++
    g.defs.flatMap (fun r => [r.localName, r.kind, r.span]) ++
    g.mutations.flatMap (fun r => [r.root, r.path, r.kind, r.span]) ++
    g.literals.flatMap (fun r => [r.exportName, r.path, r.text, r.span])

/-- A graph is changed in its fields only. -/
theorem map_congr {g : ModuleGraph α} {f h : α → β} (same : ∀ a ∈ g.fields, f a = h a) :
    g.map f = g.map h := by
  simp only [fields, List.forall_mem_append, List.forall_mem_flatMap, List.forall_mem_cons,
    List.not_mem_nil, false_imp_iff, implies_true, and_true] at same
  obtain ⟨⟨⟨⟨⟨⟨file, imports⟩, exports⟩, reexports⟩, defs⟩, mutations⟩, literals⟩ := same
  unfold map
  congr 1
  -- in each table the rows are changed alike
  · exact List.map_congr_left fun r mem => by simp only [imports r mem]
  · exact List.map_congr_left fun r mem => by simp only [exports r mem]
  · exact List.map_congr_left fun r mem => by simp only [reexports r mem]
  · exact List.map_congr_left fun r mem => by simp only [defs r mem]
  · exact List.map_congr_left fun r mem => by simp only [mutations r mem]
  · exact List.map_congr_left fun r mem => by simp only [literals r mem]

end ModuleGraph

/-- A graph of texts without surrogates. -/
structure PlainGraph where
  graph : ModuleGraph Text
  plain : ∀ t ∈ graph.fields, t.hasSurrogate = false

namespace PlainGraph

/-- The graph as it is given to a store, and as a store gives it. -/
def json (g : PlainGraph) : ModuleGraph Json := g.graph.map .str

end PlainGraph

theorem Text.joinPairs_of_plain {t : Text} (plain : t.hasSurrogate = false) : joinPairs t = t := by
  induction t with
  | nil => rfl
  | cons c rest ih =>
    rw [hasSurrogate, List.any_cons, Bool.or_eq_false_iff] at plain
    cases c with
    | scalar c => rw [joinPairs_scalar, ih plain.2]
    | high h => cases plain.1
    | low l => cases plain.1

/-- The text of a plain graph spells that graph. -/
theorem PlainGraph.graphOfText_render (g : PlainGraph) :
    FileSystem.graphOfText g.json.toJson.render = .ok (some g.json) := by
  have same : g.json.map Json.joined = g.json := by
    rw [json, ModuleGraph.map_map]
    apply ModuleGraph.map_congr
    intro t mem
    simp [Json.joined, Text.joinPairs_of_plain (g.plain t mem)]
  rw [json, FileSystem.graphOfText_render]
  rw [json] at same
  rw [same]

/-! ## Paths that can be keys -/

/-- A text of a path that a file can have and that can be the key of a store. -/
structure IsKeyText (p : Text) : Prop where
  noNul : .scalar '\x00' ∉ p
  noSurrogate : p.hasSurrogate = false

namespace IsKeyText

variable {p : Text} (isKey : IsKeyText p)
include isKey

theorem noSurrogate_of_mem {c : CodePoint} (mem : c ∈ p) : c.isSurrogate = false := by
  have none := isKey.noSurrogate
  rw [Text.hasSurrogate, List.any_eq_false] at none
  exact Bool.eq_false_iff.mpr (none c mem)

theorem error? : (Path.ofText p).error? = none := by
  rw [Path.error?_eq_none_iff]
  intro name mem
  have inText : ∀ c ∈ name, c ∈ p := fun c inName =>
    Text.mem_of_mem_splitOn (List.mem_filter.mp mem).1 inName
  rw [Path.nameError?_eq_none_iff, List.any_eq_false]
  refine ⟨fun c inName => ?_, ?_⟩
  · simp [CodePoint.isUnencodable, isKey.noSurrogate_of_mem (inText c inName)]
  · simpa using fun inName => isKey.noNul (inText _ inName)

theorem storeKey : FileSystem.storeKey (.ofText p) = .ok (Path.ofText p).text := by
  have none : (Path.ofText p).text.hasSurrogate = false := by
    rw [Text.hasSurrogate, List.any_eq_false]
    intro c mem
    rcases Path.mem_text mem with rfl | rfl | ⟨name, listed, inName⟩
    · exact Bool.false_ne_true
    · exact Bool.false_ne_true
    · have inText := Text.mem_of_mem_splitOn (List.mem_filter.mp listed).1 inName
      simp [isKey.noSurrogate_of_mem inText]
  rw [FileSystem.storeKey, none]
  rfl

end IsKeyText

namespace FileSystem

/-- A path that a file can have has a mark if and only if something stands there. -/
theorem mark_cases (fs : FileSystem) {path : Path} (sound : path.error? = none) :
    (∃ mark, fs.mark path = .ok (some mark) ∧ fs.exists? path = true) ∨
      (fs.mark path = .ok none ∧ fs.exists? path = false) := by
  unfold exists? at? mark
  cases located : fs.locate path with
  | error e =>
    cases e with
    | path e => exact absurd located (fs.locate_ne_path sound e)
    | _ => exact .inr ⟨rfl, rfl⟩
  | ok found => exact .inl ⟨found.2.mark, rfl, rfl⟩

theorem not_exists_of_mark {fs : FileSystem} {path : Path} (sound : path.error? = none)
    (unmarked : ∀ mark, fs.mark path ≠ .ok (some mark)) : fs.exists? path = false := by
  rcases fs.mark_cases sound with ⟨mark, marked, -⟩ | ⟨-, missing⟩
  · exact absurd marked (unmarked mark)
  · exact missing

theorem exists?_of_mark {fs : FileSystem} {path : Path} {mark : Mark}
    (marked : fs.mark path = .ok (some mark)) : fs.exists? path = true := by
  unfold FileSystem.mark at marked
  unfold exists? at?
  cases located : fs.locate path with
  | ok found => rfl
  | error e =>
    rw [located] at marked
    cases e <;> cases marked

end FileSystem

/-! ## What a store keeps for a path -/

namespace GraphStore

/-- What both tables of a store have for a path. -/
def kept (key : Text) (s : GraphStore) : Option Mark × Option Text :=
  (Table.get? key s.marks, Table.get? key s.graphs)

theorem kept_keep_self (key : Text) (mark : Mark) (t : Text) (s : GraphStore) :
    (s.keep key mark t).kept key = (some mark, some t) := by
  simp [kept, keep]

theorem kept_keep_of_ne {key other : Text} (differs : other ≠ key) (mark : Mark) (t : Text)
    (s : GraphStore) : (s.keep key mark t).kept other = s.kept other := by
  simp [kept, keep, Table.get?_set_of_ne differs]

theorem kept_drop (key other : Text) (s : GraphStore) :
    (s.drop key).kept other = if other = key then (none, none) else s.kept other := by
  simp only [kept, drop, Table.get?_erase]
  split <;> rfl

theorem kept_of_not_keeps {key : Text} {s : GraphStore} (absent : s.keeps key = false) :
    s.kept key = (none, none) := by
  simpa [keeps, kept, Table.has] using absent

/-- Both tables list the same paths. -/
def SameKeys (s : GraphStore) : Prop := s.marks.keys = s.graphs.keys

theorem SameKeys.keep {s : GraphStore} (same : s.SameKeys) (key : Text) (mark : Mark) (t : Text) :
    (s.keep key mark t).SameKeys := by
  have keys : s.marks.keys = s.graphs.keys := same
  show (Table.set key mark s.marks).keys = (Table.set key t s.graphs).keys
  rw [Table.keys_set, Table.keys_set, keys]

theorem SameKeys.drop {s : GraphStore} (same : s.SameKeys) (key : Text) :
    (s.drop key).SameKeys := by
  have keys : s.marks.keys = s.graphs.keys := same
  simp only [SameKeys, GraphStore.drop, Table.keys_erase, keys]

theorem SameKeys.length {s : GraphStore} (same : s.SameKeys) :
    s.marks.length = s.graphs.length := by
  have lengths := congrArg List.length same
  rwa [Table.keys, Table.keys, List.length_map, List.length_map] at lengths

end GraphStore

namespace FileSystem

variable {fs : FileSystem} {held : OpenStore} {s : GraphStore}

theorem Holds.dropGraph (holds : fs.Holds held s) {path : Path} {key : Text}
    (isKey : storeKey path = .ok key) :
    fs.dropGraph held path =
      if s.keeps key then fs.writeStore held (s.drop key) else .ok fs := by
  simp only [FileSystem.dropGraph, holds.readStore, isKey]
  rfl

theorem Holds.keptGraph (holds : fs.Holds held s) {path : Path} {mark : Mark} {key : Text}
    (marked : fs.mark path = .ok (some mark)) (isKey : storeKey path = .ok key) :
    fs.keptGraph held path =
      match s.text? key mark with
      | some t => graphOfText t
      | none => .ok none := by
  simp only [FileSystem.keptGraph, markOf, marked, holds.readStore, isKey]
  rfl

theorem Holds.isKept (holds : fs.Holds held s) {path : Path} {mark : Mark} {key : Text}
    (marked : fs.mark path = .ok (some mark)) (isKey : storeKey path = .ok key) :
    fs.isKept held path = .ok (s.isCurrent key mark) := by
  simp only [FileSystem.isKept, markOf, marked, holds.readStore, isKey]
  rfl

theorem answers_of_missing (held : OpenStore) {path : Path} (missing : fs.mark path = .ok none) :
    fs.keptGraph held path = .ok none ∧ fs.isKept held path = .ok false := by
  simp only [FileSystem.keptGraph, FileSystem.isKept, markOf, missing]
  exact ⟨rfl, rfl⟩

theorem Holds.clearStore (holds : fs.Holds held s) :
    fs.clearStore held = fs.writeStore held {} := by
  simp only [FileSystem.clearStore, holds.readStore]
  rfl

end FileSystem

end JsxOrigin
