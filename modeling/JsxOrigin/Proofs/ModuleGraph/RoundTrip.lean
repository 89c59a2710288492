import JsxOrigin.Proofs.Json.RoundTrip
import JsxOrigin.Storage.KeptGraph

/-!
# Graphs read back

A graph goes through two translations when it is kept: its rows become JSON objects, and these
become text. Reading the objects is exact for fields of any kind (`ModuleGraph.ofJson_toJson`).
Reading the text joins the surrogate pairs of the fields and changes nothing else.

**The law** (`FileSystem.graphOfText_render`): the text kept for a graph of texts spells that graph
with joined fields.
-/

namespace JsxOrigin

/-! ## Records -/

theorem Text.joinPairs_ofString (s : String) : joinPairs (ofString s) = ofString s := by
  have scalars : ∀ cs : List Char, joinPairs (cs.map .scalar) = cs.map .scalar := by
    intro cs
    induction cs with
    | nil => rfl
    | cons c cs ih => rw [List.map_cons, joinPairs_scalar, ih]
  exact scalars s.toList

namespace Json

theorem joined_record (names : List String) (values : List Json) :
    (record names values).joined = record names (values.map joined) := by
  rw [record, joined, joinedMembers_eq_map, record, List.zip_map_right]
  simp [Text.joinPairs_ofString]

theorem Textual.record {room : Nat} {names : List String} {values : List Json}
    (each : ∀ v ∈ values, Textual room v) (complete : names.length = values.length)
    (distinct : (names.map Text.ofString).Nodup) : Textual (room + 1) (record names values) := by
  refine .obj ?_ ?_
  · intro m mem
    obtain ⟨⟨n, v⟩, zipped, rfl⟩ := List.mem_map.mp mem
    exact each v (List.of_mem_zip zipped).2
  · have keys : (names.zip values).map Prod.fst = names := List.map_fst_zip (by omega)
    rw [List.map_map]
    have : ((names.zip values).map fun p => Text.ofString p.1) = names.map Text.ofString := by
      rw [← keys, List.map_map, keys]
      rfl
    simpa [Function.comp_def, Text.joinPairs_ofString, this] using distinct

/-- A table whose rows have texts for fields. -/
theorem Textual.table {ρ : Type} (room : Nat) {names : List String} (fields : ρ → List Text)
    (complete : ∀ r, names.length = (fields r).length)
    (distinct : (names.map Text.ofString).Nodup) (rows : List ρ) :
    Textual (room + 2) (.arr (rows.map fun r => .record names ((fields r).map .str))) := by
  refine .arr ?_
  intro j mem
  obtain ⟨r, -, rfl⟩ := List.mem_map.mp mem
  refine .record ?_ (by rw [complete r, List.length_map]) distinct
  intro v isField
  obtain ⟨t, -, rfl⟩ := List.mem_map.mp isField
  exact .str room t

end Json

namespace ModuleGraph

/-! ## Objects -/

/-- A table is read back if each of its rows is. -/
theorem rows?_of_get? {ρ : Type} {members : List (Text × Json)} {table : String}
    {row? : Json → Option ρ} {write : ρ → Json} {rows : List ρ}
    (found : Table.get? (Text.ofString table) members = some (.arr (rows.map write)))
    (inverse : ∀ r, row? (write r) = some r) : rows? members table row? = some rows := by
  rw [rows?, found]
  show (rows.map write).mapM row? = some rows
  clear found
  induction rows with
  | nil => rfl
  | cons r rows ih => simp [inverse, ih]

/-- **Objects** give back the graph that they were written from. -/
theorem ofJson_toJson (g : ModuleGraph Json) : ofJson g.toJson = .ok g := by
  obtain ⟨members, written⟩ : ∃ members, g.toJson = .obj members := ⟨_, rfl⟩
  have listed := (Json.obj.inj written).symm
  have imports : rows? members "imports" importRow? = some g.imports :=
    rows?_of_get? (by rw [listed]; rfl) fun _ => rfl
  have exports : rows? members "exports" exportRow? = some g.exports :=
    rows?_of_get? (by rw [listed]; rfl) fun _ => rfl
  have reexports : rows? members "reexports" reexportRow? = some g.reexports :=
    rows?_of_get? (by rw [listed]; rfl) fun _ => rfl
  have defs : rows? members "defs" defRow? = some g.defs :=
    rows?_of_get? (by rw [listed]; rfl) fun _ => rfl
  have mutations : rows? members "mutations" mutationRow? = some g.mutations :=
    rows?_of_get? (by rw [listed]; rfl) fun _ => rfl
  have literals : rows? members "literal_index" literalRow? = some g.literals :=
    rows?_of_get? (by rw [listed]; rfl) fun _ => rfl
  have file : Table.get? (Text.ofString "file") members = some g.file := by
    rw [listed]
    rfl
  rw [written, ofJson, ofMembers?, imports, exports, reexports, defs, mutations, literals, file]
  rfl

theorem map_map {α β γ : Type} (f : α → β) (h : β → γ) (g : ModuleGraph α) :
    (g.map f).map h = g.map (h ∘ f) := by
  simp [map, Function.comp_def]

theorem joined_toJson (g : ModuleGraph Json) : g.toJson.joined = (g.map Json.joined).toJson := by
  simp only [toJson, Json.joined_record, List.map_cons, List.map_nil, Json.joined,
    Json.joinedItems_eq_map, List.map_map, Function.comp_def, map, mutationJson, literalJson]

/-! ## Texts -/

theorem textual_toJson (room : Nat) (g : ModuleGraph Text) :
    Json.Textual (room + 3) (g.map .str).toJson := by
  refine .record ?_ rfl (by decide)
  intro v isField
  simp only [List.mem_cons, List.not_mem_nil, or_false, map, List.map_map] at isField
  rcases isField with rfl | rfl | rfl | rfl | rfl | rfl | rfl
  · exact .str _ g.file
  · exact .table room (fun r : ImportRow Text => [r.localName, r.imported, r.source, r.span])
      (fun _ => rfl) (by decide) g.imports
  · exact .table room (fun r : ExportRow Text => [r.exported, r.localName, r.span])
      (fun _ => rfl) (by decide) g.exports
  · exact .table room (fun r : ReexportRow Text => [r.exported, r.imported, r.source, r.span])
      (fun _ => rfl) (by decide) g.reexports
  · exact .table room (fun r : DefRow Text => [r.localName, r.kind, r.span])
      (fun _ => rfl) (by decide) g.defs
  · exact .table room (fun r : MutationRow Text => [r.root, r.path, r.kind, r.span])
      (fun _ => rfl) (by decide) g.mutations
  · exact .table room (fun r : LiteralRow Text => [r.exportName, r.path, r.text, r.span])
      (fun _ => rfl) (by decide) g.literals

end ModuleGraph

/-- **Kept texts.** The text kept for a graph of texts spells it with the pairs of its fields
joined. -/
theorem FileSystem.graphOfText_render (g : ModuleGraph Text) :
    graphOfText (g.map Json.str).toJson.render = .ok (some ((g.map Json.str).map Json.joined)) := by
  have shallow : Json.Textual Json.Reader.depthLimit (g.map Json.str).toJson :=
    ModuleGraph.textual_toJson 9992 g
  rw [graphOfText, Json.parse_render shallow, ModuleGraph.joined_toJson]
  simp only [ModuleGraph.ofJson_toJson]
  rfl

end JsxOrigin
