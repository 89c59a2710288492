import JsxOrigin.Proofs.Project.Registration
import JsxOrigin.Proofs.Project.Resolution
import Mathlib.Data.List.Induction

/-!
# Which dependencies there are

The dependencies between modules are gathered row by row: the first row that takes something from
another module makes a dependency, and each later one adds its name to it or changes its kind.
**The law** (`Registry.dependencies_describe`): the modules are the nodes, and there is a dependency
of one module on another exactly if some source in the one means the other, and its kind and its
names are those of all such rows together (`Describes`). This holds for both ways of resolving
sources, as long as every source can be resolved; one that is refused leaves no dependencies at all.

A row is a link between two modules. Adding a link extends the dependency between its two modules
and changes no other one (`edge?_add`), so the dependency between two modules sums up the links
between them (`edge?_addAll`), whatever links to others stand between these.
-/

namespace JsxOrigin

/-! ## Links -/

/-- A name that a module takes from another one. -/
structure Link where
  source : Text
  target : Text
  kind : DependencyKind
  name : Text

namespace Link

/-- Whether a link leads from one module to another one. -/
def joins (a b : Text) (l : Link) : Bool := l.source = a ∧ l.target = b

theorem joins_iff {a b : Text} {l : Link} :
    l.joins a b = true ↔ l.source = a ∧ l.target = b :=
  decide_eq_true_iff

/-- Adds a link to dependencies. -/
def add (ds : List Dependency) (l : Link) : List Dependency :=
  Registry.addDependency l.kind l.source l.target (.str l.name) ds

end Link

namespace Dependency

/-- A dependency without names. -/
def blank (a b : Text) : Dependency := ⟨a, b, .imports, []⟩

/-- A dependency on account of one more name. -/
def extend (kind : DependencyKind) (name : Json) (d : Dependency) : Dependency :=
  { d with
    kind := if kind = .reexports then kind else d.kind
    names := if d.names.any (·.same name) then d.names else d.names ++ [name] }

/-- What the links from one module to another one sum up to. -/
def sum (a b : Text) (links : List Link) : Dependency where
  source := a
  target := b
  kind := if links.any (·.kind = .reexports) then .reexports else .imports
  names := (links.map (·.name)).eraseDups.map .str

theorem any_same (names : List Text) (name : Text) :
    (names.map Json.str).any (·.same (.str name)) = names.contains name := by
  rw [List.any_map, List.contains_eq_any_beq]
  refine congrArg names.any (funext fun other => ?_)
  show (other == name) = (name == other)
  exact Bool.beq_comm

/-- A name is listed once, where it comes up first. -/
theorem eraseDups_concat (names : List Text) (name : Text) :
    (names ++ [name]).eraseDups =
      if names.eraseDups.contains name then names.eraseDups else names.eraseDups ++ [name] := by
  have alone : [name].eraseDups = [name] := by rw [List.eraseDups_cons]; rfl
  rw [List.eraseDups_append]
  by_cases known : name ∈ names <;> simp [List.removeAll, known, alone]

/-- **One more link** extends the sum. -/
theorem sum_concat (a b : Text) (links : List Link) (l : Link) :
    sum a b (links ++ [l]) = (sum a b links).extend l.kind (.str l.name) := by
  have kind : (if (links ++ [l]).any (·.kind = .reexports) then DependencyKind.reexports
      else .imports) = if l.kind = .reexports then l.kind
        else if links.any (·.kind = .reexports) then .reexports else .imports := by
    by_cases reexports : l.kind = .reexports <;> simp [reexports]
  have names : ((links ++ [l]).map (·.name)).eraseDups.map Json.str =
      (let before := (links.map (·.name)).eraseDups.map Json.str
       if before.any (·.same (.str l.name)) then before else before ++ [.str l.name]) := by
    rw [List.map_append, List.map_singleton, eraseDups_concat]
    dsimp only
    rw [any_same]
    split
    · rfl
    · rw [List.map_append, List.map_singleton]
  rw [sum, kind, names]
  rfl

end Dependency

/-! ## Adding links -/

namespace Registry

open Dependency

/-- The dependency of one module on another one. -/
def edge? (a b : Text) (ds : List Dependency) : Option Dependency :=
  ds.find? fun d => d.source = a ∧ d.target = b

/-- The pairs of modules between which there is a dependency. -/
def pairs (ds : List Dependency) : List (Text × Text) := ds.map fun d => (d.source, d.target)

variable {a b : Text} {ds : List Dependency}

theorem edge?_cons (d : Dependency) (ds : List Dependency) :
    edge? a b (d :: ds) = if d.source = a ∧ d.target = b then some d else edge? a b ds := by
  by_cases here : d.source = a ∧ d.target = b <;> simp [edge?, here]

/-- A link that joins no pair seen so far makes a dependency; one that joins a pair extends it. -/
theorem add_cons (d : Dependency) (ds : List Dependency) (l : Link) :
    l.add (d :: ds) = if l.joins d.source d.target then d.extend l.kind (.str l.name) :: ds
      else d :: l.add ds := by
  by_cases here : d.source = l.source ∧ d.target = l.target
  · have joins : l.joins d.source d.target = true := Link.joins_iff.mpr ⟨here.1.symm, here.2.symm⟩
    rw [if_pos joins, Link.add, addDependency, if_pos here]
    rfl
  · have apart : ¬ l.joins d.source d.target = true := fun joins =>
      here ⟨(Link.joins_iff.mp joins).1.symm, (Link.joins_iff.mp joins).2.symm⟩
    rw [if_neg apart, Link.add, addDependency, if_neg here]
    rfl

theorem add_nil (l : Link) :
    l.add [] = [(blank l.source l.target).extend l.kind (.str l.name)] := by
  rw [Link.add, addDependency, blank, extend]
  cases l.kind <;> rfl

/-- **One step**: a link extends the dependency between its two modules, and that alone. -/
theorem edge?_add (ds : List Dependency) (l : Link) :
    edge? a b (l.add ds) =
      if l.joins a b then
        some (((edge? a b ds).getD (blank a b)).extend l.kind (.str l.name))
      else edge? a b ds := by
  induction ds with
  | nil =>
    rw [add_nil, edge?_cons]
    by_cases joins : l.source = a ∧ l.target = b
    · obtain ⟨rfl, rfl⟩ := joins
      simp [Link.joins, edge?, extend, blank]
    · simp [Link.joins, edge?, extend, blank, joins]
  | cons d ds ih =>
    rw [add_cons]
    by_cases here : d.source = a ∧ d.target = b
    · obtain ⟨rfl, rfl⟩ := here
      by_cases joins : l.joins d.source d.target = true <;>
        simp [edge?_cons, joins, extend]
    · by_cases joins : l.joins d.source d.target = true
      · have apart : ¬ l.joins a b = true := by
          obtain ⟨isSource, isTarget⟩ := Link.joins_iff.mp joins
          rwa [Link.joins_iff, isSource, isTarget]
        rw [if_pos joins, if_neg apart, edge?_cons, edge?_cons, if_neg here]
        exact if_neg here
      · rw [if_neg joins, edge?_cons, edge?_cons, if_neg here, if_neg here, ih]

/-- A link adds the pair of its modules, unless it is there. -/
theorem pairs_add (ds : List Dependency) (l : Link) :
    pairs (l.add ds) =
      if (l.source, l.target) ∈ pairs ds then pairs ds else pairs ds ++ [(l.source, l.target)] := by
  induction ds with
  | nil => rw [add_nil]; rfl
  | cons d ds ih =>
    rw [add_cons]
    by_cases joins : l.source = d.source ∧ l.target = d.target
    · simp [pairs, Link.joins, joins, extend]
    · have apart : (l.source, l.target) ≠ (d.source, d.target) := by
        simpa [Prod.ext_iff] using joins
      have later : pairs (d :: l.add ds) = (d.source, d.target) :: pairs (l.add ds) := rfl
      have before : pairs (d :: ds) = (d.source, d.target) :: pairs ds := rfl
      rw [if_neg (by simpa [Link.joins] using joins), later, before, ih]
      by_cases known : (l.source, l.target) ∈ pairs ds <;> simp [known, apart]

theorem nodup_pairs_add (once : (pairs ds).Nodup) (l : Link) : (pairs (l.add ds)).Nodup := by
  rw [pairs_add]
  split
  · exact once
  · rename_i fresh
    refine List.nodup_append.mpr ⟨once, List.pairwise_singleton _ _, ?_⟩
    intro pair known other mem same
    rw [List.mem_singleton.mp mem] at same
    exact fresh (same ▸ known)

/-- The dependencies that links add up to. -/
def addAll (links : List Link) : List Dependency := links.foldl Link.add []

theorem addAll_concat (links : List Link) (l : Link) :
    addAll (links ++ [l]) = l.add (addAll links) := by
  rw [addAll, List.foldl_append]
  rfl

theorem nodup_pairs_addAll (links : List Link) : (pairs (addAll links)).Nodup := by
  induction links using List.reverseRecOn with
  | nil => exact List.nodup_nil
  | append_singleton links l ih =>
    rw [addAll_concat]
    exact nodup_pairs_add ih l

/-- **A run**: the dependency between two modules sums up the links between them. -/
theorem edge?_addAll (a b : Text) (links : List Link) :
    edge? a b (addAll links) =
      if links.any (·.joins a b) then some (sum a b (links.filter (·.joins a b))) else none := by
  induction links using List.reverseRecOn with
  | nil => rfl
  | append_singleton links l ih =>
    rw [addAll_concat, edge?_add, ih, List.any_append, List.filter_append]
    by_cases joins : l.joins a b = true
    · rw [if_pos joins, List.filter_cons_of_pos joins, List.filter_nil, sum_concat]
      by_cases before : links.any (·.joins a b) = true
      · simp [before]
      · have none : links.filter (·.joins a b) = [] := by simpa using before
        rw [if_neg before, none, if_pos (by simp [joins])]
        rfl
    · rw [if_neg joins, List.filter_cons_of_neg joins, List.filter_nil, List.append_nil]
      simp [joins]

/-- If no pair comes up twice, dependencies are told by their pairs. -/
theorem edge?_eq_some_iff (once : (pairs ds).Nodup) (d : Dependency) :
    edge? a b ds = some d ↔ d ∈ ds ∧ d.source = a ∧ d.target = b := by
  induction ds with
  | nil => simp [edge?]
  | cons first ds ih =>
    obtain ⟨fresh, onceLater⟩ := List.nodup_cons.mp once
    rw [edge?_cons]
    by_cases here : first.source = a ∧ first.target = b
    · rw [if_pos here]
      constructor
      · intro same
        cases same
        exact ⟨List.mem_cons_self, here⟩
      · rintro ⟨mem, there⟩
        rcases List.mem_cons.mp mem with rfl | later
        · rfl
        · have again : (first.source, first.target) = (d.source, d.target) := by
            rw [here.1, here.2, there.1, there.2]
          exact absurd (List.mem_map.mpr ⟨d, later, again.symm⟩) fresh
    · rw [if_neg here, ih onceLater, List.mem_cons]
      constructor
      · exact fun ⟨later, there⟩ => ⟨.inr later, there⟩
      · rintro ⟨rfl | later, there⟩
        · exact absurd there here
        · exact ⟨later, there⟩

/-- **The dependencies of links**: one for each pair that a link joins. -/
theorem mem_addAll {links : List Link} {d : Dependency} :
    d ∈ addAll links ↔ links.any (·.joins d.source d.target) = true ∧
      d = sum d.source d.target (links.filter (·.joins d.source d.target)) := by
  have told : edge? d.source d.target (addAll links) = some d ↔
      d ∈ addAll links ∧ d.source = d.source ∧ d.target = d.target :=
    edge?_eq_some_iff (nodup_pairs_addAll links) d
  rw [edge?_addAll] at told
  refine (and_iff_left ⟨rfl, rfl⟩).symm.trans (told.symm.trans ?_)
  split
  · rename_i some
    rw [Option.some_inj, and_iff_right some, eq_comm]
  · rename_i none
    simp [none]

theorem mem_pairs_addAll {links : List Link} :
    (a, b) ∈ pairs (addAll links) ↔ links.any (·.joins a b) = true := by
  constructor
  · intro mem
    obtain ⟨d, isDependency, same⟩ := List.mem_map.mp mem
    cases same
    exact (mem_addAll.mp isDependency).1
  · intro some
    exact List.mem_map.mpr ⟨sum a b (links.filter (·.joins a b)), mem_addAll.mpr ⟨some, rfl⟩, rfl⟩

end Registry

/-! ## Modules of texts -/

namespace ModuleGraph

/-- The sources of imports and re-exports. -/
def sources (g : ModuleGraph Text) : List Text :=
  g.imports.map (·.source) ++ g.reexports.map (·.source)

/-- The names that a module takes from another one: those of imports, then those of re-exports. -/
def namesFrom (g : ModuleGraph Text) (means : Text → Option Text) (target : Text) : List Text :=
  (g.imports.filter fun row => means row.source = some target).map (·.localName) ++
    (g.reexports.filter fun row => means row.source = some target).map (·.exported)

/-- What a module takes from elsewhere, with the source and the name. -/
def takenTexts (g : ModuleGraph Text) : List (DependencyKind × Text × Text) :=
  g.imports.map (fun row => (.imports, row.source, row.localName)) ++
    g.reexports.map fun row => (.reexports, row.source, row.exported)

theorem takes_map_str (g : ModuleGraph Text) :
    Registry.takes (g.map .str) =
      g.takenTexts.map fun taken => (taken.1, .str taken.2.1, .str taken.2.2) := by
  simp only [Registry.takes, ModuleGraph.map, takenTexts, List.map_append, List.map_map]
  rfl

theorem mem_sources_iff {g : ModuleGraph Text} {source : Text} :
    source ∈ g.sources ↔ ∃ kind name, (kind, source, name) ∈ g.takenTexts := by
  simp only [sources, takenTexts, List.mem_append, List.mem_map, Prod.mk.injEq]
  constructor
  · rintro (⟨row, mem, rfl⟩ | ⟨row, mem, rfl⟩)
    · exact ⟨_, _, .inl ⟨row, mem, rfl, rfl, rfl⟩⟩
    · exact ⟨_, _, .inr ⟨row, mem, rfl, rfl, rfl⟩⟩
  · rintro ⟨kind, name, ⟨row, mem, -, rfl, -⟩ | ⟨row, mem, -, rfl, -⟩⟩
    · exact .inl ⟨row, mem, rfl⟩
    · exact .inr ⟨row, mem, rfl⟩

theorem reexports_mem_takenTexts {g : ModuleGraph Text} {source name : Text} :
    (.reexports, source, name) ∈ g.takenTexts ↔
      ∃ row ∈ g.reexports, row.source = source ∧ row.exported = name := by
  simp [takenTexts]

end ModuleGraph

namespace Registry

open Dependency ModuleGraph

/-- The registry of modules all of whose fields are texts. -/
def ofTexts (modules : Table Text (ModuleGraph Text)) : Registry :=
  modules.map fun m => (m.1, m.2.map .str)

/-- **Dependencies describe modules**, if sources mean files in a given way. -/
structure Describes (modules : Table Text (ModuleGraph Text)) (means : Text → Text → Option Text)
    (graph : DependencyGraph) : Prop where
  /-- The nodes are the modules. -/
  nodes : graph.nodes.Perm modules.keys
  /-- No module depends on another one twice. -/
  once : (pairs graph.edges).Nodup
  /-- A module depends on another one exactly if some source in it means that one. -/
  edges : ∀ a b, (a, b) ∈ pairs graph.edges ↔ a ∈ modules.keys ∧ b ∈ modules.keys ∧ a ≠ b ∧
    ∃ g, (a, g) ∈ modules ∧ ∃ source ∈ g.sources, means a source = some b
  /-- One re-export outweighs all imports. -/
  kinds : ∀ d ∈ graph.edges, ∀ g, (d.source, g) ∈ modules →
    (d.kind = .reexports ↔ ∃ row ∈ g.reexports, means d.source row.source = some d.target)
  /-- Each name is listed once, where it comes up first. -/
  names : ∀ d ∈ graph.edges, ∀ g, (d.source, g) ∈ modules →
    d.names = (g.namesFrom (means d.source) d.target).eraseDups.map .str

variable {modules : Table Text (ModuleGraph Text)} {means : Text → Text → Option Text}

theorem keys_ofTexts (modules : Table Text (ModuleGraph Text)) :
    Table.keys (ofTexts modules) = modules.keys := by
  rw [ofTexts, Table.keys, List.map_map]
  rfl

theorem has_ofTexts {file : Text} :
    Table.has file (ofTexts modules) = true ↔ file ∈ modules.keys := by
  rw [← keys_ofTexts]
  exact Table.mem_keys_iff.symm

/-- What modules take from elsewhere, in the order of their files. -/
def textRows (modules : Table Text (ModuleGraph Text)) :
    List (Text × DependencyKind × Text × Text) :=
  (modules.mergeSort fun m m' => Text.le m.1 m'.1).flatMap fun m => m.2.takenTexts.map (m.1, ·)

/-- A row with its source and its name as JSON. -/
def jsonRow (row : Text × DependencyKind × Text × Text) : Text × DependencyKind × Json × Json :=
  (row.1, row.2.1, .str row.2.2.1, .str row.2.2.2)

theorem rows_ofTexts (modules : Table Text (ModuleGraph Text)) :
    (ofTexts modules).rows = (textRows modules).map jsonRow := by
  have sorted : (ofTexts modules).entries =
      (modules.mergeSort fun m m' => Text.le m.1 m'.1).map fun m => (m.1, m.2.map .str) := by
    apply Eq.symm
    apply List.map_mergeSort
    intro m _ m' _
    rfl
  rw [rows, sorted, textRows, List.map_flatMap, List.flatMap_map]
  refine congrArg (List.flatMap · _) (funext fun m => ?_)
  show (takes (m.2.map .str)).map (m.1, ·) = (m.2.takenTexts.map (m.1, ·)).map jsonRow
  rw [takes_map_str, List.map_map, List.map_map]
  rfl

theorem mem_textRows {file : Text} {kind : DependencyKind} {source name : Text} :
    (file, kind, source, name) ∈ textRows modules ↔
      ∃ g, (file, g) ∈ modules ∧ (kind, source, name) ∈ g.takenTexts := by
  simp [textRows]

/-- The link of a row, if its source means another module. -/
def link? (means : Text → Text → Option Text) :
    Text × DependencyKind × Text × Text → Option Link
  | (file, kind, source, name) =>
    match means file source with
    | some target => if target = file then none else some ⟨file, target, kind, name⟩
    | none => none

/-- The links between modules. -/
def links (means : Text → Text → Option Text) (modules : Table Text (ModuleGraph Text)) :
    List Link :=
  (textRows modules).filterMap (link? means)

theorem link?_eq_some {file : Text} {kind : DependencyKind} {source name : Text} {l : Link} :
    link? means (file, kind, source, name) = some l ↔
      ∃ target, means file source = some target ∧ target ≠ file ∧
        l = ⟨file, target, kind, name⟩ := by
  rw [link?]
  cases means file source with
  | none => simp
  | some target =>
    by_cases same : target = file
    · simp [same]
    · simp [same, eq_comm, Ne.symm same]

/-! ## Gathering the rows -/

section Gathering

variable {ε : Type} {resolve : Text → Json → Except ε (Option Text)}

/-- The error of a row whose source cannot be resolved. -/
def refused? (resolve : Text → Json → Except ε (Option Text)) :
    Text × DependencyKind × Json × Json → Option ε
  | (file, _, source, _) =>
    match resolve file source with
    | .error e => some e
    | .ok _ => none

/-- A row whose source can be resolved adds its link. -/
theorem addRow_of_means {file source : Text}
    (resolved : resolve file (.str source) = .ok (means file source)) (kind : DependencyKind)
    (name : Text) (ds : List Dependency) :
    addRow resolve ds (file, kind, .str source, .str name) =
      .ok ((link? means (file, kind, source, name)).elim ds (Link.add ds)) := by
  rw [addRow, resolved, link?]
  cases means file source with
  | none => rfl
  | some target =>
    show Except.ok (if target = file then ds else _) = .ok (Option.elim (if _ then _ else _) ds _)
    by_cases same : target = file
    · rw [if_pos same, if_pos same, Option.elim_none]
    · rw [if_neg same, if_neg same, Option.elim_some, Link.add]

/-- If all sources can be resolved, the rows add up their links. -/
theorem foldlM_addRow {rows : List (Text × DependencyKind × Text × Text)}
    (resolved : ∀ file kind source name, (file, kind, source, name) ∈ rows →
      resolve file (.str source) = .ok (means file source))
    (ds : List Dependency) :
    (rows.map jsonRow).foldlM (addRow resolve) ds =
      .ok ((rows.filterMap (link? means)).foldl Link.add ds) := by
  induction rows generalizing ds with
  | nil => rfl
  | cons row rows ih =>
    obtain ⟨file, kind, source, name⟩ := row
    have now := resolved file kind source name List.mem_cons_self
    have later := ih fun file kind source name mem =>
      resolved file kind source name (List.mem_cons_of_mem _ mem)
    rw [List.map_cons, List.foldlM_cons, jsonRow, addRow_of_means now, List.filterMap_cons]
    cases link? means (file, kind, source, name) with
    | none => exact later ds
    | some l => exact later (l.add ds)

/-- **A refused source**: the first one is the error of the whole. -/
theorem dependencies_of_refused {r : Registry} {e : ε}
    (first : r.rows.findSome? (refused? resolve) = some e) :
    r.dependencies resolve = .error e := by
  have stopped : ∀ (rows : List (Text × DependencyKind × Json × Json)) ds,
      rows.findSome? (refused? resolve) = some e → rows.foldlM (addRow resolve) ds = .error e := by
    intro rows
    induction rows with
    | nil => exact fun ds nothing => nomatch nothing
    | cons row rows ih =>
      obtain ⟨file, kind, source, name⟩ := row
      intro ds first
      rw [List.findSome?_cons, refused?] at first
      rw [List.foldlM_cons, addRow]
      cases resolved : resolve file source with
      | error e' =>
        rw [resolved] at first
        cases first
        rfl
      | ok target =>
        rw [resolved] at first
        cases target with
        | none => exact ih ds first
        | some target => exact ih _ first
  show (r.rows.foldlM (addRow resolve) [] >>= fun ds => _) = _
  rw [stopped r.rows [] first]
  rfl

end Gathering

/-! ## The links from a module to another one -/

/-- With every key recorded once, what belongs to one key comes from its entry. -/
theorem flatMap_of_key {α β : Type} {t : Table Text α} (once : t.keys.Nodup)
    {key : Text} {value : α} (mem : (key, value) ∈ t) {f : Text × α → List β}
    (others : ∀ e ∈ t, e.1 ≠ key → f e = []) : t.flatMap f = f (key, value) := by
  induction t with
  | nil => cases mem
  | cons e rest ih =>
    obtain ⟨fresh, onceLater⟩ := List.nodup_cons.mp once
    have later : ∀ e ∈ rest, e.1 ≠ key → f e = [] := fun e mem =>
      others e (List.mem_cons_of_mem _ mem)
    rw [List.flatMap_cons]
    rcases List.mem_cons.mp mem with rfl | inRest
    · have nothing : rest.flatMap f = [] := List.flatMap_eq_nil_iff.mpr fun e mem =>
        later e mem fun same => fresh (List.mem_map.mpr ⟨e, mem, same⟩)
      rw [nothing, List.append_nil]
    · have differs : e.1 ≠ key := fun same => fresh (same ▸ Table.mem_keys inRest)
      rw [others e List.mem_cons_self differs, ih onceLater inRest later, List.nil_append]

/-- The links from one module to another one, of what the one takes from elsewhere. -/
def linksTo (means : Text → Text → Option Text) (a b : Text)
    (taken : List (DependencyKind × Text × Text)) : List Link :=
  (taken.filter fun (_, source, _) => means a source = some b).map
    fun (kind, _, name) => ⟨a, b, kind, name⟩

theorem linksTo_cons (a b : Text) (kind : DependencyKind) (source name : Text)
    (taken : List (DependencyKind × Text × Text)) :
    linksTo means a b ((kind, source, name) :: taken) =
      if means a source = some b then ⟨a, b, kind, name⟩ :: linksTo means a b taken
      else linksTo means a b taken := by
  by_cases meant : means a source = some b <;> simp [linksTo, meant]

theorem filter_link? {a b : Text} (differ : a ≠ b)
    (taken : List (DependencyKind × Text × Text)) :
    ((taken.map (a, ·)).filterMap (link? means)).filter (·.joins a b) =
      linksTo means a b taken := by
  induction taken with
  | nil => rfl
  | cons row taken ih =>
    obtain ⟨kind, source, name⟩ := row
    rw [List.map_cons, List.filterMap_cons, link?, linksTo_cons, ← ih]
    cases means a source with
    | none => rfl
    | some target =>
      dsimp only
      by_cases isTarget : target = b
      · rw [isTarget, if_neg differ.symm, if_pos rfl]
        exact List.filter_cons_of_pos (Link.joins_iff.mpr ⟨rfl, rfl⟩)
      · rw [if_neg fun same => isTarget (Option.some.inj same)]
        by_cases same : target = a
        · rw [if_pos same]
        · rw [if_neg same]
          exact List.filter_cons_of_neg fun joins => isTarget (Link.joins_iff.mp joins).2

/-- The rows of a module that mean another one make the links to it. -/
theorem filter_links (once : modules.keys.Nodup) {a b : Text} (differ : a ≠ b)
    {g : ModuleGraph Text} (mem : (a, g) ∈ modules) :
    (links means modules).filter (·.joins a b) =
      linksTo means a b g.takenTexts := by
  have sorted := List.mergeSort_perm modules fun m m' => Text.le m.1 m'.1
  rw [links, textRows, List.filterMap_flatMap, List.filter_flatMap]
  rw [flatMap_of_key ((sorted.map Prod.fst).nodup_iff.mpr once) (sorted.mem_iff.mpr mem)]
  · exact filter_link? differ g.takenTexts
  · rintro ⟨file, h⟩ - other
    apply List.filter_eq_nil_iff.mpr
    intro l isLink joins
    obtain ⟨⟨_, kind, source, name⟩, isRow, linked⟩ := List.mem_filterMap.mp isLink
    obtain ⟨_, -, same⟩ := List.mem_map.mp isRow
    cases same
    obtain ⟨_, -, -, rfl⟩ := link?_eq_some.mp linked
    exact other (Link.joins_iff.mp joins).1

theorem any_links {a b : Text} :
    (links means modules).any (·.joins a b) = true ↔
      a ≠ b ∧ ∃ g, (a, g) ∈ modules ∧ ∃ source ∈ g.sources, means a source = some b := by
  rw [List.any_eq_true]
  constructor
  · rintro ⟨l, isLink, joins⟩
    obtain ⟨⟨file, kind, source, name⟩, isRow, linked⟩ := List.mem_filterMap.mp isLink
    obtain ⟨target, meant, differ, rfl⟩ := link?_eq_some.mp linked
    obtain ⟨rfl, rfl⟩ := Link.joins_iff.mp joins
    obtain ⟨g, mem, isTaken⟩ := mem_textRows.mp isRow
    exact ⟨differ.symm, g, mem, source, mem_sources_iff.mpr ⟨kind, name, isTaken⟩, meant⟩
  · rintro ⟨differ, g, mem, source, isSource, meant⟩
    obtain ⟨kind, name, isTaken⟩ := mem_sources_iff.mp isSource
    refine ⟨⟨a, b, kind, name⟩, ?_, Link.joins_iff.mpr ⟨rfl, rfl⟩⟩
    exact List.mem_filterMap.mpr ⟨_, mem_textRows.mpr ⟨g, mem, isTaken⟩,
      link?_eq_some.mpr ⟨b, meant, differ.symm, rfl⟩⟩

theorem kind_sum_linksTo (means : Text → Text → Option Text) (g : ModuleGraph Text) (a b : Text) :
    (sum a b (linksTo means a b g.takenTexts)).kind = .reexports ↔
      ∃ row ∈ g.reexports, means a row.source = some b := by
  have some : (linksTo means a b g.takenTexts).any (·.kind = .reexports) = true ↔
      ∃ row ∈ g.reexports, means a row.source = some b := by
    simp only [linksTo, List.any_map, List.any_filter, List.any_eq_true, Function.comp_apply,
      Bool.and_eq_true, decide_eq_true_eq]
    constructor
    · rintro ⟨⟨_, source, name⟩, isTaken, meant, rfl⟩
      obtain ⟨row, mem, rfl, -⟩ := reexports_mem_takenTexts.mp isTaken
      exact ⟨row, mem, meant⟩
    · rintro ⟨row, mem, meant⟩
      exact ⟨_, reexports_mem_takenTexts.mpr ⟨row, mem, rfl, rfl⟩, meant, rfl⟩
  rw [← some, sum]
  cases (linksTo means a b g.takenTexts).any (·.kind = .reexports) <;> simp

theorem names_sum_linksTo (means : Text → Text → Option Text) (g : ModuleGraph Text) (a b : Text) :
    (sum a b (linksTo means a b g.takenTexts)).names =
      (g.namesFrom (means a) b).eraseDups.map .str := by
  have names : (linksTo means a b g.takenTexts).map (·.name) = g.namesFrom (means a) b := by
    simp only [linksTo, namesFrom, takenTexts, List.filter_append, List.filter_map, List.map_append,
      List.map_map]
    rfl
  rw [← names, sum]

/-- **Links describe modules.** -/
theorem describes_addAll (once : modules.keys.Nodup)
    (registered : ∀ file source target, means file source = some target →
      target ∈ modules.keys) :
    Describes modules means ⟨(ofTexts modules).files, addAll (links means modules)⟩ := by
  have isSum : ∀ d ∈ addAll (links means modules), ∀ g, (d.source, g) ∈ modules →
      d = sum d.source d.target (linksTo means d.source d.target g.takenTexts) := by
    intro d mem g inModules
    obtain ⟨some, isSum⟩ := mem_addAll.mp mem
    rwa [filter_links once (any_links.mp some).1 inModules] at isSum
  refine ⟨?_, nodup_pairs_addAll _, ?_, ?_, ?_⟩
  · rw [← keys_ofTexts]
    exact List.mergeSort_perm _ _
  · intro a b
    rw [mem_pairs_addAll, any_links]
    constructor
    · rintro ⟨differ, g, inModules, source, isSource, meant⟩
      exact ⟨Table.mem_keys inModules, registered a source b meant, differ, g, inModules, source,
        isSource, meant⟩
    · rintro ⟨-, -, differ, some⟩
      exact ⟨differ, some⟩
  · intro d mem g inModules
    have kind := kind_sum_linksTo means g d.source d.target
    rwa [← isSum d mem g inModules] at kind
  · intro d mem g inModules
    have names := names_sum_linksTo means g d.source d.target
    rwa [← isSum d mem g inModules] at names

/-- The order of dependencies does not matter. -/
theorem Describes.of_perm {nodes : List Text} {ds ds' : List Dependency}
    (describes : Describes modules means ⟨nodes, ds⟩) (perm : ds'.Perm ds) :
    Describes modules means ⟨nodes, ds'⟩ where
  nodes := describes.nodes
  once := (perm.map _).nodup_iff.mpr describes.once
  edges a b := (perm.map _).mem_iff.trans (describes.edges a b)
  kinds d mem := describes.kinds d (perm.mem_iff.mp mem)
  names d mem := describes.names d (perm.mem_iff.mp mem)

/-! ## The law -/

/-- If all sources can be resolved, the dependencies are those of all links. -/
theorem dependencies_perm_addAll {ε : Type} {resolve : Text → Json → Except ε (Option Text)}
    (resolved : ∀ file g, (file, g) ∈ modules → ∀ source ∈ g.sources,
      resolve file (.str source) = .ok (means file source)) :
    ∃ ds, (ofTexts modules).dependencies resolve = .ok ⟨(ofTexts modules).files, ds⟩ ∧
      ds.Perm (addAll (links means modules)) := by
  have reached : (ofTexts modules).rows.foldlM (addRow resolve) [] =
      .ok (addAll (links means modules)) := by
    rw [rows_ofTexts]
    refine foldlM_addRow (fun file kind source name isRow => ?_) []
    obtain ⟨g, mem, isTaken⟩ := mem_textRows.mp isRow
    exact resolved file g mem source (mem_sources_iff.mpr ⟨kind, name, isTaken⟩)
  exact ⟨_, dependencies_of_rows reached, List.mergeSort_perm _ _⟩

theorem dependencies_of_means {ε : Type} {resolve : Text → Json → Except ε (Option Text)}
    (once : modules.keys.Nodup)
    (resolved : ∀ file g, (file, g) ∈ modules → ∀ source ∈ g.sources,
      resolve file (.str source) = .ok (means file source))
    (registered : ∀ file source target, means file source = some target →
      target ∈ modules.keys) :
    ∃ graph, (ofTexts modules).dependencies resolve = .ok graph ∧
      Describes modules means graph := by
  obtain ⟨ds, reached, perm⟩ := dependencies_perm_addAll resolved
  exact ⟨_, reached, (describes_addAll once registered).of_perm perm⟩

/-- One source that cannot be resolved is enough to have no dependencies. -/
theorem dependencies_of_error {ε : Type} {resolve : Text → Json → Except ε (Option Text)}
    {file : Text} {g : ModuleGraph Text} (mem : (file, g) ∈ modules) {source : Text}
    (isSource : source ∈ g.sources) {e : ε} (refused : resolve file (.str source) = .error e) :
    ∃ e', (ofTexts modules).dependencies resolve = .error e' := by
  obtain ⟨kind, name, isTaken⟩ := mem_sources_iff.mp isSource
  have isRow : (file, kind, Json.str source, Json.str name) ∈ (ofTexts modules).rows := by
    rw [rows_ofTexts]
    exact List.mem_map.mpr ⟨_, mem_textRows.mpr ⟨g, mem, isTaken⟩, rfl⟩
  cases first : (ofTexts modules).rows.findSome? (refused? resolve) with
  | none =>
    have passed := List.findSome?_eq_none_iff.mp first _ isRow
    rw [refused?, refused] at passed
    cases passed
  | some e' => exact ⟨e', dependencies_of_refused first⟩

theorem has_of_target? {r : Registry} {file source target : Text}
    (meant : r.target? file source = some target) : Table.has target r = true := by
  rw [target?] at meant
  split at meant
  · have found := List.find?_some meant
    exact found
  · cases meant

end Registry

namespace Resolver

/-- The text under which a path is registered: the whole one, or the one below the root. -/
def registered? (r : Resolver) (registry : Registry) (path : Path) : Option Text :=
  if Table.has path.text registry then some path.text
  else
    ((path.below? r.root).map fun names => Path.text ⟨.relative, names⟩).filter
      (Table.has · registry)

theorem target_eq (r : Resolver) (fs : FileSystem) (registry : Registry) (file source : Text) :
    r.target fs registry file (.str source) =
      (r.resolve fs (.ofText file) source).map (·.bind (r.registered? registry)) := by
  rw [target]
  cases r.resolve fs (.ofText file) source with
  | error e => rfl
  | ok found =>
    cases found with
    | none => rfl
    | some path =>
      show _ = Except.ok (r.registered? registry path)
      rw [registered?]
      simp only [bind, Except.bind]
      by_cases whole : Table.has path.text registry = true
      · rw [if_pos whole, if_pos whole]
        rfl
      · rw [if_neg whole, if_neg whole]
        cases path.below? r.root with
        | none => rfl
        | some names => rfl

theorem has_of_registered? {r : Resolver} {registry : Registry} {path : Path} {t : Text}
    (registered : r.registered? registry path = some t) : Table.has t registry = true := by
  rw [registered?] at registered
  split at registered
  · rename_i whole
    cases registered
    exact whole
  · exact (Option.filter_eq_some_iff.mp registered).2

/-- The registered file that a source means on the disk, if it is not refused. -/
def means? (r : Resolver) (fs : FileSystem) (registry : Registry) (file source : Text) :
    Option Text :=
  (r.target fs registry file (.str source)).toOption.join

theorem has_of_means? {r : Resolver} {fs : FileSystem} {registry : Registry}
    {file source target : Text} (meant : r.means? fs registry file source = some target) :
    Table.has target registry = true := by
  rw [means?, target_eq] at meant
  cases resolved : r.resolve fs (.ofText file) source with
  | error e =>
    rw [resolved] at meant
    cases meant
  | ok found =>
    rw [resolved] at meant
    have bound : found.bind (r.registered? registry) = some target := meant
    obtain ⟨path, -, registered⟩ := Option.bind_eq_some_iff.mp bound
    exact has_of_registered? registered

end Resolver

namespace Registry

/-- **Which dependencies there are.** If sources are resolved by comparing texts, there always is a
graph, and it describes the modules, which are its nodes. If they are resolved on the disk, that is
so as long as no source in any module is refused, and one that is refused leaves no graph at
all. -/
theorem dependencies_describe {modules : Table Text (ModuleGraph Text)}
    (once : modules.keys.Nodup) :
    let r := ofTexts modules
    (∃ graph, r.dependencies r.resolveText = .ok graph ∧ Describes modules r.target? graph) ∧
    ∀ (resolver : Resolver) (fs : FileSystem),
      ((∀ file g, (file, g) ∈ modules → ∀ source ∈ g.sources,
          ∃ target, resolver.target fs r file (.str source) = .ok target) →
        ∃ graph, r.dependencies (resolver.target fs r) = .ok graph ∧
          Describes modules (resolver.means? fs r) graph) ∧
      (∀ file g, (file, g) ∈ modules → ∀ source ∈ g.sources,
        ∀ e, resolver.target fs r file (.str source) = .error e →
          ∃ e', r.dependencies (resolver.target fs r) = .error e') := by
  intro r
  refine ⟨?_, fun resolver fs => ⟨fun resolves => ?_, ?_⟩⟩
  · have registered : ∀ file source target, r.target? file source = some target →
        target ∈ modules.keys := fun _ _ _ meant => has_ofTexts.mp (has_of_target? meant)
    exact dependencies_of_means once (fun _ _ _ _ _ => rfl) registered
  · have registered : ∀ file source target, resolver.means? fs r file source = some target →
        target ∈ modules.keys := fun _ _ _ meant => has_ofTexts.mp (Resolver.has_of_means? meant)
    refine dependencies_of_means once ?_ registered
    intro file g mem source isSource
    obtain ⟨target, resolved⟩ := resolves file g mem source isSource
    rw [Resolver.means?, resolved]
    rfl
  · intro file g mem source isSource e refused
    exact dependencies_of_error mem isSource refused

/-! ## A module with imports and re-exports -/

/-- A module that takes names from an index file by imports and re-exports, in several spellings,
and from a package. -/
def mixedGraph : ModuleGraph Text where
  file := "src/a.js"
  imports :=
    [⟨"x", "x", "../index", ""⟩, ⟨"r", "default", "react", ""⟩, ⟨"y", "y", "..", ""⟩,
      ⟨"x", "z", "../index.js", ""⟩]
  reexports := [⟨"y", "y", ".././index", ""⟩, ⟨"w", "w", "../index", ""⟩]

/-- That module and the index file. -/
def mixedModules : Table Text (ModuleGraph Text) :=
  [("src/a.js", mixedGraph), ("index.js", { file := "index.js" })]

/-- A module whose only source is the root of the disk, and one that imports from it. -/
def rootedModules : Table Text (ModuleGraph Text) :=
  [("index.js", { file := "index.js", imports := [⟨"x", "default", "/", ""⟩] }),
    ("src/a.js", { file := "src/a.js", imports := [⟨"x", "default", "../index", ""⟩] })]

/-- The law on a disk: the dependency has the kind of the re-exports and each name once. A refused
source leaves none. -/
theorem dependencies_describe_layered :
    let disk := Resolver.layered
    let resolver := Resolver.ofAliases ⟨.root, ["p"]⟩ []
    let mixed := ofTexts mixedModules
    let rooted := ofTexts rootedModules
    mixedModules.keys.Nodup ∧
    (∀ file g, (file, g) ∈ mixedModules → ∀ source ∈ g.sources,
      ∃ target, resolver.target disk mixed file (.str source) = .ok target) ∧
    (∃ graph, mixed.dependencies (resolver.target disk mixed) = .ok graph ∧
      graph.nodes.Perm [("src/a.js" : Text), "index.js"] ∧
      ∃ d ∈ graph.edges, d.source = "src/a.js" ∧ d.target = "index.js" ∧ d.kind = .reexports ∧
        d.names = [.str "x", .str "y", .str "w"]) ∧
    rootedModules.keys.Nodup ∧
    resolver.target disk rooted "index.js" (.str "/") = .error .noName ∧
    ∃ e, rooted.dependencies (resolver.target disk rooted) = .error e := by
  intro disk resolver mixed rooted
  have resolves : ∀ file g, (file, g) ∈ mixedModules → ∀ source ∈ g.sources,
      ∃ target, resolver.target disk mixed file (.str source) = .ok target := by
    have each : ∀ m ∈ mixedModules, ∀ source ∈ m.2.sources,
        (resolver.target disk mixed m.1 (.str source)).isOk = true := by
      decide +kernel
    intro file g mem source isSource
    have resolves := each (file, g) mem source isSource
    cases resolved : resolver.target disk mixed file (.str source) with
    | error e =>
      rw [resolved] at resolves
      cases resolves
    | ok target => exact ⟨target, rfl⟩
  have refused : resolver.target disk rooted "index.js" (.str "/") = .error .noName := rfl
  obtain ⟨-, onDisk⟩ := @dependencies_describe mixedModules (by decide)
  obtain ⟨-, onDiskToo⟩ := @dependencies_describe rootedModules (by decide)
  obtain ⟨graph, reached, describes⟩ := (onDisk resolver disk).1 resolves
  have joined : (.ofString "src/a.js", .ofString "index.js") ∈ pairs graph.edges :=
    (describes.edges _ _).mpr ⟨by decide, by decide, by decide, _, List.mem_cons_self, _,
      List.mem_cons_self, rfl⟩
  have taken : mixedGraph.namesFrom (resolver.means? disk mixed "src/a.js") "index.js" =
      [("x" : Text), "y", "x", "y", "w"] := by
    decide
  obtain ⟨d, mem, same⟩ := List.mem_map.mp joined
  obtain ⟨isSource, isTarget⟩ := Prod.mk.inj same
  have kind := describes.kinds d mem
  have names := describes.names d mem
  rw [isSource, isTarget] at kind names
  refine ⟨by decide, resolves,
    ⟨graph, reached, describes.nodes, d, mem, isSource, isTarget, ?_, ?_⟩, by decide, refused,
    (onDiskToo resolver disk).2 _ _ List.mem_cons_self _ List.mem_cons_self _ refused⟩
  · exact (kind _ List.mem_cons_self).mpr ⟨_, List.mem_cons_self, rfl⟩
  · rw [names mixedGraph List.mem_cons_self, taken]
    rfl

/-- **Outside the law.** The root of the disk is no module, and a source that leads there takes all
dependencies with it: also that of another module, whose source means a file. -/
theorem dependencies_of_rootSource :
    let resolver := Resolver.ofAliases ⟨.root, ["p"]⟩ []
    let r := ofTexts rootedModules
    rootedModules.keys.Nodup ∧
      resolver.target Resolver.layered r "src/a.js" (.str "../index") =
        .ok (some (.ofString "index.js")) ∧
      resolver.target Resolver.layered r "index.js" (.str "/") = .error .noName ∧
      r.dependencies (resolver.target Resolver.layered r) = .error .noName := by
  intro resolver r
  have sorted : rootedModules.Pairwise fun m m' => Text.le m.1 m'.1 = true := by
    rw [rootedModules, List.pairwise_pair]
    decide
  have first : r.rows.findSome? (refused? (resolver.target Resolver.layered r)) =
      some .noName := by
    rw [rows_ofTexts, textRows, List.mergeSort_of_pairwise sorted]
    rfl
  exact ⟨by decide, rfl, rfl, dependencies_of_refused first⟩

end Registry

end JsxOrigin
