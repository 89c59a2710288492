import JsxOrigin.Proofs.ModuleGraph.RoundTrip
import Mathlib.Data.List.Forall2
import Mathlib.Data.List.Nodup
import Mathlib.Data.List.Perm.Subperm

/-!
# Which values are graphs

A graph is read from any JSON value, and a kept text that is no graph has to be told apart from one
that is. **The law** (`ModuleGraph.ofJson_exact`) says which values are graphs: the objects whose
tables have the right shape (`Json.IsTable`). What is read from such an object is written with the
same file and the same rows, table by table, and nothing else is written.

The six kinds of rows are read and written alike, so what there is to know about a kind is one
structure (`RowFormat`), and each table is settled by the same lemma.
-/

namespace JsxOrigin

/-! ## Shapes -/

namespace Json

/-- Whether a value is an object with exactly some fields, in any order. -/
def HasFields (names : List String) : Json → Prop
  | obj members => (members.map Prod.fst).Perm (names.map Text.ofString)
  | _ => False

/-- Two objects with the same members, in any order. -/
def SameMembers : Json → Json → Prop
  | obj members, obj members' => members.Perm members'
  | _, _ => False

/-- **The shape of a table**: an array of rows. An empty string and an empty object have no rows. -/
inductive IsTable (names : List String) : Json → Prop where
  | emptyString : IsTable names (str [])
  | emptyObject : IsTable names (obj [])
  | rows {rows : List Json} (each : ∀ row ∈ rows, row.HasFields names) : IsTable names (arr rows)

/-- The rows of a table, if there is one. -/
def rowsOf : Option Json → List Json
  | some (arr rows) => rows
  | _ => []

/-- Whether a value is an object. -/
def IsObject (j : Json) : Prop := ∃ members, j = obj members

end Json

namespace ModuleGraph

/-- The tables of a graph, each with the fields of its rows. -/
def tables : List (String × List String) :=
  [("imports", importFields), ("exports", exportFields), ("reexports", reexportFields),
    ("defs", defFields), ("mutations", mutationFields), ("literal_index", literalFields)]

/-- Whether each table of a value that is there has the shape of one. -/
def TablesFit (d : Json) : Prop :=
  ∀ t ∈ tables, ∀ value, d.member? (Text.ofString t.1) = some value → value.IsTable t.2

/-- Whether a value is written as another one lists it: the file, an empty text if there is none,
and then the six tables with the same rows. -/
def Lists (d written : Json) : Prop :=
  ∃ entries, written = .obj
      ((Text.ofString "file", (d.member? (Text.ofString "file")).getD (.str [])) :: entries) ∧
    List.Forall₂ (fun t e => e.1 = Text.ofString t.1 ∧ ∃ rows, e.2 = .arr rows ∧
      List.Forall₂ Json.SameMembers (Json.rowsOf (d.member? (Text.ofString t.1))) rows)
      tables entries

end ModuleGraph

/-! ## Records -/

theorem mapM_eq_some_iff {α β : Type} {f : α → Option β} {xs : List α} {ys : List β} :
    xs.mapM f = some ys ↔ List.Forall₂ (fun a b => f a = some b) xs ys := by
  induction xs generalizing ys with
  | nil => cases ys <;> simp
  | cons a xs ih =>
    rw [List.mapM_cons]
    cases ys with
    | nil => cases f a <;> simp [Option.bind_eq_some_iff]
    | cons b ys =>
      rw [List.forall₂_cons, ← ih]
      cases f a <;> simp [Option.bind_eq_some_iff, and_comm]

theorem exists_mapM_iff {α β : Type} {f : α → Option β} {xs : List α} :
    (∃ ys, xs.mapM f = some ys) ↔ ∀ a ∈ xs, ∃ b, f a = some b := by
  induction xs with
  | nil => simp
  | cons a xs ih =>
    rw [List.forall_mem_cons, ← ih]
    cases found : f a <;> simp [found, Option.bind_eq_some_iff]

namespace Json

/-- The members of a record. -/
def recordMembers (names : List String) (values : List Json) : List (Text × Json) :=
  (names.zip values).map fun m => (Text.ofString m.1, m.2)

theorem record_eq (names : List String) (values : List Json) :
    record names values = obj (recordMembers names values) := rfl

theorem map_fst_recordMembers {names : List String} {values : List Json}
    (complete : values.length = names.length) :
    (recordMembers names values).map Prod.fst = names.map Text.ofString := by
  have keys : (names.zip values).map Prod.fst = names := List.map_fst_zip (by omega)
  calc (recordMembers names values).map Prod.fst
      = ((names.zip values).map Prod.fst).map Text.ofString := by
        rw [recordMembers, List.map_map, List.map_map]
        rfl
    _ = names.map Text.ofString := by rw [keys]

theorem length_recordMembers {names : List String} {values : List Json}
    (complete : values.length = names.length) :
    (recordMembers names values).length = names.length := by
  rw [← List.length_map (f := Prod.fst), map_fst_recordMembers complete, List.length_map]

/-- The fields of a record are found under their names. -/
theorem forall₂_recordMembers {names : List String} {values : List Json}
    (complete : values.length = names.length) (distinct : (names.map Text.ofString).Nodup) :
    List.Forall₂ (fun n v => Table.get? (Text.ofString n) (recordMembers names values) = some v)
      names values := by
  have once : (Table.keys (recordMembers names values)).Nodup := by
    rw [Table.keys, map_fst_recordMembers complete]
    exact distinct
  refine List.forall₂_iff_zip.mpr ⟨complete.symm, ?_⟩
  intro n v mem
  exact Table.get?_of_mem once (List.mem_map.mpr ⟨(n, v), mem, rfl⟩)

/-- **A row** has some fields exactly if it has the members of the record with these fields. -/
theorem recordFields?_eq_some_iff {names : List String} (distinct : (names.map Text.ofString).Nodup)
    {row : Json} {values : List Json} :
    row.recordFields? names = some values ↔
      values.length = names.length ∧ row.SameMembers (record names values) := by
  cases row with
  | obj members =>
    rw [recordFields?, record_eq, SameMembers]
    constructor
    · intro read
      split at read
      · rename_i count
        have found := mapM_eq_some_iff.mp read
        have complete := found.length_eq.symm
        refine ⟨complete, List.Perm.symm ?_⟩
        -- the record is part of the row, and it has as many members
        have nodup : (recordMembers names values).Nodup := by
          refine List.Nodup.of_map Prod.fst ?_
          rw [map_fst_recordMembers complete]
          exact distinct
        have part : recordMembers names values ⊆ members := by
          intro m mem
          obtain ⟨⟨n, v⟩, zipped, rfl⟩ := List.mem_map.mp mem
          exact Table.mem_of_get? ((List.forall₂_iff_zip.mp found).2 zipped)
        exact (nodup.subperm part).perm_of_length_le
          (Nat.le_of_eq (count.trans (length_recordMembers complete).symm))
      · cases read
    · rintro ⟨complete, same⟩
      have once : (Table.keys (recordMembers names values)).Nodup := by
        rw [Table.keys, map_fst_recordMembers complete]
        exact distinct
      have count := same.length_eq.trans (length_recordMembers complete)
      rw [if_pos count, mapM_eq_some_iff]
      refine (forall₂_recordMembers complete distinct).imp fun n v found => ?_
      rw [Table.get?_of_perm same once, found]
  | _ => simp [recordFields?, SameMembers]

/-- A row has some fields exactly if they can be read. -/
theorem hasFields_iff {names : List String} (distinct : (names.map Text.ofString).Nodup)
    {row : Json} : row.HasFields names ↔ ∃ values, row.recordFields? names = some values := by
  cases row with
  | obj members =>
    constructor
    · intro (keys : (members.map Prod.fst).Perm (names.map Text.ofString))
      have once : (Table.keys members).Nodup := keys.nodup_iff.mpr distinct
      have count : members.length = names.length := by simpa using keys.length_eq
      have each : ∀ n ∈ names, ∃ v, Table.get? (Text.ofString n) members = some v := by
        intro n mem
        obtain ⟨m, isMember, key⟩ := List.mem_map.mp (keys.mem_iff.mpr (List.mem_map_of_mem mem))
        exact ⟨m.2, Table.get?_of_mem once (by rw [← key]; exact isMember)⟩
      rw [recordFields?, if_pos count]
      exact exists_mapM_iff.mpr each
    · rintro ⟨values, read⟩
      obtain ⟨complete, same⟩ := (recordFields?_eq_some_iff distinct).mp read
      have keys : (members.map Prod.fst).Perm ((recordMembers names values).map Prod.fst) :=
        List.Perm.map Prod.fst same
      rw [map_fst_recordMembers complete] at keys
      exact keys
  | _ => simp [recordFields?, HasFields]

theorem table?_eq_some_iff {value : Json} {rows : List Json} :
    table? (some value) = some rows ↔
      value = arr rows ∨ rows = [] ∧ (value = str [] ∨ value = obj []) := by
  unfold table?
  split <;> simp_all [eq_comm]

end Json

namespace ModuleGraph

/-! ## Tables -/

/-- **A kind of rows**: which fields they have and how they are read. -/
structure RowFormat (ρ : Type) where
  names : List String
  fields : ρ → List Json
  read? : Json → Option ρ
  distinct : (names.map Text.ofString).Nodup
  reads : ∀ row r, read? row = some r ↔ row.recordFields? names = some (fields r)
  covers : ∀ values, values.length = names.length → ∃ r, fields r = values

namespace RowFormat

variable {ρ : Type} (F : RowFormat ρ)

/-- A row as JSON. -/
def write (r : ρ) : Json := .record F.names (F.fields r)

theorem sameMembers_of_read? {row : Json} {r : ρ} (read : F.read? row = some r) :
    row.SameMembers (F.write r) :=
  ((Json.recordFields?_eq_some_iff F.distinct).mp ((F.reads row r).mp read)).2

theorem exists_read?_iff {row : Json} : (∃ r, F.read? row = some r) ↔ row.HasFields F.names := by
  simp only [F.reads, Json.hasFields_iff F.distinct]
  constructor
  · rintro ⟨r, read⟩
    exact ⟨F.fields r, read⟩
  · rintro ⟨values, read⟩
    obtain ⟨r, rfl⟩ := F.covers values ((Json.recordFields?_eq_some_iff F.distinct).mp read).1
    exact ⟨r, read⟩

/-- **A table is read** exactly if it has the shape of one, or if there is none. -/
theorem exists_rows?_iff {members : List (Text × Json)} {table : String} :
    (∃ rows, rows? members table F.read? = some rows) ↔
      ∀ value, Table.get? (Text.ofString table) members = some value → value.IsTable F.names := by
  rw [rows?]
  cases Table.get? (Text.ofString table) members with
  | none => simp [Json.table?]
  | some value =>
    constructor
    · rintro ⟨rows, read⟩ _ ⟨⟩
      obtain ⟨listed, isTable, read⟩ := Option.bind_eq_some_iff.mp read
      rcases Json.table?_eq_some_iff.mp isTable with rfl | ⟨-, rfl | rfl⟩
      · have each := exists_mapM_iff.mp ⟨rows, read⟩
        exact .rows fun row mem => F.exists_read?_iff.mp (each row mem)
      · exact .emptyString
      · exact .emptyObject
    · intro fits
      cases fits value rfl with
      | emptyString => exact ⟨[], rfl⟩
      | emptyObject => exact ⟨[], rfl⟩
      | rows each =>
        exact exists_mapM_iff.mpr fun row mem => F.exists_read?_iff.mpr (each row mem)

/-- The rows that are read are those of the table. -/
theorem sameMembers_of_rows? {members : List (Text × Json)} {table : String} {rows : List ρ}
    (read : rows? members table F.read? = some rows) :
    List.Forall₂ Json.SameMembers
      (Json.rowsOf (Table.get? (Text.ofString table) members)) (rows.map F.write) := by
  obtain ⟨listed, isTable, read⟩ := Option.bind_eq_some_iff.mp read
  have same : Json.rowsOf (Table.get? (Text.ofString table) members) = listed := by
    cases found : Table.get? (Text.ofString table) members with
    | none =>
      rw [found] at isTable
      exact Option.some.inj isTable
    | some value =>
      rw [found] at isTable
      rcases Json.table?_eq_some_iff.mp isTable with rfl | ⟨rfl, rfl | rfl⟩ <;> rfl
  rw [same, List.forall₂_map_right_iff]
  exact (mapM_eq_some_iff.mp read).imp fun _ _ => F.sameMembers_of_read?

end RowFormat

/-- The rows of imports. -/
def importFormat : RowFormat (ImportRow Json) where
  names := importFields
  fields r := [r.localName, r.imported, r.source, r.span]
  read? := importRow?
  distinct := by decide
  reads row r := by
    cases r
    unfold importRow?
    split <;> simp_all
  covers values complete := by
    obtain ⟨a, b, c, d, rfl⟩ := List.length_eq_four.mp complete
    exact ⟨⟨a, b, c, d⟩, rfl⟩

/-- The rows of exports. -/
def exportFormat : RowFormat (ExportRow Json) where
  names := exportFields
  fields r := [r.exported, r.localName, r.span]
  read? := exportRow?
  distinct := by decide
  reads row r := by
    cases r
    unfold exportRow?
    split <;> simp_all
  covers values complete := by
    obtain ⟨a, b, c, rfl⟩ := List.length_eq_three.mp complete
    exact ⟨⟨a, b, c⟩, rfl⟩

/-- The rows of re-exports. -/
def reexportFormat : RowFormat (ReexportRow Json) where
  names := reexportFields
  fields r := [r.exported, r.imported, r.source, r.span]
  read? := reexportRow?
  distinct := by decide
  reads row r := by
    cases r
    unfold reexportRow?
    split <;> simp_all
  covers values complete := by
    obtain ⟨a, b, c, d, rfl⟩ := List.length_eq_four.mp complete
    exact ⟨⟨a, b, c, d⟩, rfl⟩

/-- The rows of definitions. -/
def defFormat : RowFormat (DefRow Json) where
  names := defFields
  fields r := [r.localName, r.kind, r.span]
  read? := defRow?
  distinct := by decide
  reads row r := by
    cases r
    unfold defRow?
    split <;> simp_all
  covers values complete := by
    obtain ⟨a, b, c, rfl⟩ := List.length_eq_three.mp complete
    exact ⟨⟨a, b, c⟩, rfl⟩

/-- The rows of mutations. -/
def mutationFormat : RowFormat (MutationRow Json) where
  names := mutationFields
  fields r := [r.root, r.path, r.kind, r.span]
  read? := mutationRow?
  distinct := by decide
  reads row r := by
    cases r
    unfold mutationRow?
    split <;> simp_all
  covers values complete := by
    obtain ⟨a, b, c, d, rfl⟩ := List.length_eq_four.mp complete
    exact ⟨⟨a, b, c, d⟩, rfl⟩

/-- The rows of literals. -/
def literalFormat : RowFormat (LiteralRow Json) where
  names := literalFields
  fields r := [r.exportName, r.path, r.text, r.span]
  read? := literalRow?
  distinct := by decide
  reads row r := by
    cases r
    unfold literalRow?
    split <;> simp_all
  covers values complete := by
    obtain ⟨a, b, c, d, rfl⟩ := List.length_eq_four.mp complete
    exact ⟨⟨a, b, c, d⟩, rfl⟩

/-! ## Graphs -/

theorem ofMembers?_eq_some_iff {members : List (Text × Json)} {g : ModuleGraph Json} :
    ofMembers? members = some g ↔
      rows? members "imports" importRow? = some g.imports ∧
      rows? members "exports" exportRow? = some g.exports ∧
      rows? members "reexports" reexportRow? = some g.reexports ∧
      rows? members "defs" defRow? = some g.defs ∧
      rows? members "mutations" mutationRow? = some g.mutations ∧
      rows? members "literal_index" literalRow? = some g.literals ∧
      (Table.get? (Text.ofString "file") members).getD (.str []) = g.file := by
  cases g
  simp only [ofMembers?, Option.bind_eq_bind, Option.bind_eq_some_iff, Option.pure_def,
    Option.some.injEq, ModuleGraph.mk.injEq]
  grind

/-- The tables of an object are read exactly if each of them fits. -/
theorem exists_ofMembers?_iff {members : List (Text × Json)} :
    (∃ g, ofMembers? members = some g) ↔ TablesFit (.obj members) := by
  have six : TablesFit (.obj members) ↔
      (∃ rows, rows? members "imports" importRow? = some rows) ∧
      (∃ rows, rows? members "exports" exportRow? = some rows) ∧
      (∃ rows, rows? members "reexports" reexportRow? = some rows) ∧
      (∃ rows, rows? members "defs" defRow? = some rows) ∧
      (∃ rows, rows? members "mutations" mutationRow? = some rows) ∧
      (∃ rows, rows? members "literal_index" literalRow? = some rows) := by
    simp only [TablesFit, tables, List.forall_mem_cons, List.not_mem_nil, false_imp_iff,
      implies_true, and_true]
    exact and_congr importFormat.exists_rows?_iff.symm <|
      and_congr exportFormat.exists_rows?_iff.symm <|
      and_congr reexportFormat.exists_rows?_iff.symm <|
      and_congr defFormat.exists_rows?_iff.symm <|
      and_congr mutationFormat.exists_rows?_iff.symm literalFormat.exists_rows?_iff.symm
  rw [six]
  constructor
  · rintro ⟨g, read⟩
    obtain ⟨imports, exports, reexports, defs, mutations, literals, -⟩ :=
      ofMembers?_eq_some_iff.mp read
    exact ⟨⟨_, imports⟩, ⟨_, exports⟩, ⟨_, reexports⟩, ⟨_, defs⟩, ⟨_, mutations⟩, ⟨_, literals⟩⟩
  · rintro ⟨⟨_, imports⟩, ⟨_, exports⟩, ⟨_, reexports⟩, ⟨_, defs⟩, ⟨_, mutations⟩, ⟨_, literals⟩⟩
    exact ⟨⟨_, _, _, _, _, _, _⟩, ofMembers?_eq_some_iff.mpr
      ⟨imports, exports, reexports, defs, mutations, literals, rfl⟩⟩

/-- A graph is written as the object lists it that it was read from. -/
theorem lists_of_ofMembers? {members : List (Text × Json)} {g : ModuleGraph Json}
    (read : ofMembers? members = some g) : Lists (.obj members) g.toJson := by
  obtain ⟨imports, exports, reexports, defs, mutations, literals, file⟩ :=
    ofMembers?_eq_some_iff.mp read
  refine ⟨_, by rw [Json.member?, file]; rfl, ?_⟩
  exact .cons ⟨rfl, _, rfl, importFormat.sameMembers_of_rows? imports⟩ <|
    .cons ⟨rfl, _, rfl, exportFormat.sameMembers_of_rows? exports⟩ <|
    .cons ⟨rfl, _, rfl, reexportFormat.sameMembers_of_rows? reexports⟩ <|
    .cons ⟨rfl, _, rfl, defFormat.sameMembers_of_rows? defs⟩ <|
    .cons ⟨rfl, _, rfl, mutationFormat.sameMembers_of_rows? mutations⟩ <|
    .cons ⟨rfl, _, rfl, literalFormat.sameMembers_of_rows? literals⟩ .nil

/-- What reading can end in. -/
theorem ofJson_cases (d : Json) :
    (¬ d.IsObject ∧ ofJson d = .error .notAnObject) ∨
    (d.IsObject ∧ ¬ TablesFit d ∧ ofJson d = .error .badTable) ∨
    (d.IsObject ∧ TablesFit d ∧ ∃ g, ofJson d = .ok g ∧ Lists d g.toJson) := by
  cases d with
  | obj members =>
    refine .inr ?_
    cases read : ofMembers? members with
    | none =>
      refine .inl ⟨⟨members, rfl⟩, ?_, by rw [ofJson, read]⟩
      intro fit
      obtain ⟨g, isSome⟩ := exists_ofMembers?_iff.mpr fit
      rw [read] at isSome
      cases isSome
    | some g =>
      exact .inr ⟨⟨members, rfl⟩, exists_ofMembers?_iff.mp ⟨g, read⟩, g, by rw [ofJson, read],
        lists_of_ofMembers? read⟩
  | _ => exact .inl ⟨by simp [Json.IsObject], rfl⟩

/-- **The values that are graphs.** A value that is no object is refused as such, and an object is
refused exactly if one of its tables has the wrong shape. Each other one is read as a graph that is
written as the object lists it, and what a graph is written as is read as that graph. -/
theorem ofJson_exact (d : Json) :
    (ofJson d = .error .notAnObject ↔ ¬ d.IsObject) ∧
    (ofJson d = .error .badTable ↔ d.IsObject ∧ ¬ TablesFit d) ∧
    (d.IsObject ∧ TablesFit d → ∃ g, ofJson d = .ok g ∧ Lists d g.toJson) ∧
    ∀ g : ModuleGraph Json, ofJson g.toJson = .ok g := by
  refine ⟨?_, ?_, ?_, ofJson_toJson⟩ <;>
    rcases ofJson_cases d with ⟨other, read⟩ | ⟨object, unfit, read⟩ | ⟨object, fit, g, read, lists⟩
  all_goals simp_all

end ModuleGraph

end JsxOrigin
