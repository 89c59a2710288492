import JsxOrigin.Text.Basic

/-!
# Module graphs

What a module shows to the outside and does to its data, as six tables: imports, exports,
re-exports, definitions, mutations, and the index of the string literals in exported data. The
fields of a row have a type of their own, `α`: texts where a graph is collected from a tree, any
JSON value where it was read back from a file.
-/

namespace JsxOrigin

/-- A name that is imported. -/
structure ImportRow (α : Type) where
  localName : α
  imported : α
  source : α
  span : α
deriving DecidableEq

/-- A name that is exported. -/
structure ExportRow (α : Type) where
  exported : α
  localName : α
  span : α
deriving DecidableEq

/-- A name that is exported straight from another module. -/
structure ReexportRow (α : Type) where
  exported : α
  imported : α
  source : α
  span : α
deriving DecidableEq

/-- A name that is defined. -/
structure DefRow (α : Type) where
  localName : α
  kind : α
  span : α
deriving DecidableEq

/-- A place where the value of a name, or what lies on a path below it, is changed. -/
structure MutationRow (α : Type) where
  root : α
  path : α
  kind : α
  span : α
deriving DecidableEq

/-- A string literal in exported data. -/
structure LiteralRow (α : Type) where
  exportName : α
  path : α
  text : α
  span : α
deriving DecidableEq

/-- The six tables of a module. -/
structure ModuleGraph (α : Type) where
  file : α
  imports : List (ImportRow α) := []
  exports : List (ExportRow α) := []
  reexports : List (ReexportRow α) := []
  defs : List (DefRow α) := []
  mutations : List (MutationRow α) := []
  literals : List (LiteralRow α) := []
deriving DecidableEq

namespace ModuleGraph

variable {α β : Type}

/-- A graph with its fields changed. -/
def map (f : α → β) (g : ModuleGraph α) : ModuleGraph β where
  file := f g.file
  imports := g.imports.map fun r => ⟨f r.localName, f r.imported, f r.source, f r.span⟩
  exports := g.exports.map fun r => ⟨f r.exported, f r.localName, f r.span⟩
  reexports := g.reexports.map fun r => ⟨f r.exported, f r.imported, f r.source, f r.span⟩
  defs := g.defs.map fun r => ⟨f r.localName, f r.kind, f r.span⟩
  mutations := g.mutations.map fun r => ⟨f r.root, f r.path, f r.kind, f r.span⟩
  literals := g.literals.map fun r => ⟨f r.exportName, f r.path, f r.text, f r.span⟩

/-- The names of the tables with their numbers of rows. -/
def counts (g : ModuleGraph α) : List (Text × Nat) :=
  [("imports", g.imports.length), ("exports", g.exports.length),
    ("reexports", g.reexports.length), ("defs", g.defs.length),
    ("mutations", g.mutations.length), ("literal_index", g.literals.length)]

/-- The table of each row. -/
def rowTables (g : ModuleGraph α) : List Text :=
  g.counts.flatMap fun (table, count) => List.replicate count table

end ModuleGraph

end JsxOrigin
