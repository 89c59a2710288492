import JsxOrigin.Json.Basic
import JsxOrigin.ModuleGraph.Basic

/-!
# Module graphs as JSON

A graph is written as an object with the file and the six tables, each table as an array of objects
with the fields of its rows. Reading takes a missing table for an empty one and leaves members alone
that it does not know, but a row has to have exactly its fields. A field may hold any JSON value.
-/

namespace JsxOrigin

/-- Why a JSON value is no module graph. -/
inductive GraphError where
  /-- It is no object. -/
  | notAnObject
  /-- A table or a row has the wrong shape. -/
  | badTable
deriving DecidableEq

/-- An object with named fields. -/
def Json.record (names : List String) (values : List Json) : Json :=
  .obj ((names.zip values).map fun (n, v) => (Text.ofString n, v))

/-- The fields of a row in the order of their names, if the row has exactly these. -/
def Json.recordFields? (names : List String) (row : Json) : Option (List Json) :=
  match row with
  | .obj members =>
    if members.length = names.length then names.mapM fun n => Table.get? (Text.ofString n) members
    else none
  | _ => none

/-- The rows of a table, which a member of an object gives. An empty string or object counts as an
empty table. -/
def Json.table? (j : Option Json) : Option (List Json) :=
  match j with
  | none => some []
  | some (.arr rows) => some rows
  | some (.str []) => some []
  | some (.obj []) => some []
  | some _ => none

namespace ModuleGraph

/-- The fields of an import row. -/
def importFields : List String := ["local", "imported", "source", "span"]

/-- The fields of an export row. -/
def exportFields : List String := ["exported", "local", "span"]

/-- The fields of a re-export row. -/
def reexportFields : List String := ["exported", "imported", "source", "span"]

/-- The fields of a definition row. -/
def defFields : List String := ["local", "kind", "span"]

/-- The fields of a mutation row. -/
def mutationFields : List String := ["root", "path", "kind", "span"]

/-- The fields of a literal row. -/
def literalFields : List String := ["export_name", "path", "text", "span"]

/-! ## Writing -/

/-- A mutation row as JSON. -/
def mutationJson (r : MutationRow Json) : Json :=
  .record mutationFields [r.root, r.path, r.kind, r.span]

/-- A literal row as JSON. -/
def literalJson (r : LiteralRow Json) : Json :=
  .record literalFields [r.exportName, r.path, r.text, r.span]

/-- A graph as JSON. -/
def toJson (g : ModuleGraph Json) : Json :=
  .record ["file", "imports", "exports", "reexports", "defs", "mutations", "literal_index"]
    [g.file,
      .arr (g.imports.map fun r =>
        .record importFields [r.localName, r.imported, r.source, r.span]),
      .arr (g.exports.map fun r => .record exportFields [r.exported, r.localName, r.span]),
      .arr (g.reexports.map fun r =>
        .record reexportFields [r.exported, r.imported, r.source, r.span]),
      .arr (g.defs.map fun r => .record defFields [r.localName, r.kind, r.span]),
      .arr (g.mutations.map mutationJson),
      .arr (g.literals.map literalJson)]

/-! ## Reading -/

/-- Reads an import row. -/
def importRow? (row : Json) : Option (ImportRow Json) :=
  match row.recordFields? importFields with
  | some [localName, imported, source, span] => some ⟨localName, imported, source, span⟩
  | _ => none

/-- Reads an export row. -/
def exportRow? (row : Json) : Option (ExportRow Json) :=
  match row.recordFields? exportFields with
  | some [exported, localName, span] => some ⟨exported, localName, span⟩
  | _ => none

/-- Reads a re-export row. -/
def reexportRow? (row : Json) : Option (ReexportRow Json) :=
  match row.recordFields? reexportFields with
  | some [exported, imported, source, span] => some ⟨exported, imported, source, span⟩
  | _ => none

/-- Reads a definition row. -/
def defRow? (row : Json) : Option (DefRow Json) :=
  match row.recordFields? defFields with
  | some [localName, kind, span] => some ⟨localName, kind, span⟩
  | _ => none

/-- Reads a mutation row. -/
def mutationRow? (row : Json) : Option (MutationRow Json) :=
  match row.recordFields? mutationFields with
  | some [root, path, kind, span] => some ⟨root, path, kind, span⟩
  | _ => none

/-- Reads a literal row. -/
def literalRow? (row : Json) : Option (LiteralRow Json) :=
  match row.recordFields? literalFields with
  | some [exportName, path, text, span] => some ⟨exportName, path, text, span⟩
  | _ => none

/-- Reads the rows of a table. -/
def rows? {ρ : Type} (members : List (Text × Json)) (table : String)
    (row? : Json → Option ρ) : Option (List ρ) :=
  (Json.table? (Table.get? (Text.ofString table) members)).bind fun rows => rows.mapM row?

/-- Reads the tables of a graph. -/
def ofMembers? (members : List (Text × Json)) : Option (ModuleGraph Json) := do
  let imports ← rows? members "imports" importRow?
  let exports ← rows? members "exports" exportRow?
  let reexports ← rows? members "reexports" reexportRow?
  let defs ← rows? members "defs" defRow?
  let mutations ← rows? members "mutations" mutationRow?
  let literals ← rows? members "literal_index" literalRow?
  let file := (Table.get? (Text.ofString "file") members).getD (.str [])
  return { file, imports, exports, reexports, defs, mutations, literals }

/-- Reads a graph. -/
def ofJson : Json → Except GraphError (ModuleGraph Json)
  | .obj members =>
    match ofMembers? members with
    | some g => .ok g
    | none => .error .badTable
  | _ => .error .notAnObject

end ModuleGraph

end JsxOrigin
