import JsxOrigin.Project.Failure
import JsxOrigin.Project.Language
import JsxOrigin.Rendering.Analysis
import JsxOrigin.Storage.KeptGraph

/-!
# Scans

A scan goes through the source files of a project in the order of their paths and registers the
graph of each: the one that is kept for it, if that still counts, or a new one.
-/

namespace JsxOrigin

/-! ## Finding files -/

/-- Whether the names of a file below the root are those of a source file outside of excluded
directories. -/
def isSourceFile (excluded : List Text) (names : List Text) : Bool :=
  Settings.fileEndings.any (Text.endsWith (names.getLast?.getD []) ·) &&
    names.dropLast.all (!excluded.contains ·)

/-- The source files below a directory, by the names that lead there and in their order. -/
def FileSystem.sourceFiles (fs : FileSystem) (root : Path) (excluded : List Text) :
    List (List Text) :=
  ((fs.filesBelow root.names).filter (isSourceFile excluded)).mergeSort Path.namesLe

/-! ## Analysing files -/

/-- The tree of a module without statements. -/
def Tree.emptyModule (length : Nat) : Tree :=
  { kind := .program, named := true, start := 0, stop := length, fields := [], children := [] }

/-- The module in a file, if it is written in a known language and can be read; `shown` is its path
in spans. -/
def FileSystem.module? (fs : FileSystem) (path : Path) (shown : Text) :
    Except FileError (Option SourceModule) := do
  if (Language.ofPath? path).isNone then return none
  let some data ← fs.data? path | return none
  return some { source := { file := shown, bytes := data.bytes }
                root := data.tree.getD (.emptyModule data.bytes.length) }

/-! ## Scanning -/

/-- The state of a scan. Paths are shown relative to the root of the project. -/
structure Scan where
  files : FileSystem
  registry : Registry := []
  /-- The files that are registered. -/
  found : List Text := []
  /-- The number of files whose graph was kept. -/
  cached : Nat := 0
  /-- The number of files that were analysed. -/
  analyzed : Nat := 0
  /-- The files that are no modules or cannot be read. -/
  skipped : List Text := []
  /-- The files that were looked at. -/
  visited : List Text := []

namespace Scan

/-- The path of a file below a root as it is shown. -/
def shown (names : List Text) : Text := Text.join "/" names

/-- The path of a file below a root. -/
def absolute (root : Path) (names : List Text) : Path := { root with names := root.names ++ names }

/-- Registers the graph of a file. -/
def register (names : List Text) (g : ModuleGraph Json) (s : Scan) : Scan :=
  { s with registry := s.registry.put (shown names) g, found := s.found ++ [shown names] }

/-- Looks at one file. -/
def visit (root : Path) (store : Option OpenStore) (names : List Text) (s : Scan) :
    Except Failure Scan := do
  let path := absolute root names
  let kept ←
    match store with
    | some held => (s.files.keptGraph held path).mapError Failure.store
    | none => .ok none
  let s := { s with visited := s.visited ++ [shown names] }
  match kept with
  | some g => return { s.register names g with cached := s.cached + 1 }
  | none =>
    match ← (s.files.module? path (shown names)).mapError Failure.file with
    | none => return { s with skipped := s.skipped ++ [shown names] }
    | some m =>
      let g := (m.analyse none false).graph
      let files ←
        match store with
        | some held => (s.files.keepGraph held path g).mapError Failure.store
        | none => .ok s.files
      return { s.register names g with analyzed := s.analyzed + 1, files }

/-- Looks at files until one fails. -/
def visitAll (root : Path) (store : Option OpenStore) :
    List (List Text) → Scan → Scan × Option Failure
  | [], s => (s, none)
  | names :: rest, s =>
    match s.visit root store names with
    | .ok s => visitAll root store rest s
    | .error e => (s, some e)

/-- Scans a project and fills a registry, which is reset first. The store is opened only if kept
graphs are used. -/
def fill (registry : Registry) (fs : FileSystem) (env : Environment) (root : Path)
    (useCache : Bool) : Scan × Option Failure :=
  let registry := registry.reset
  let (files, store) : FileSystem × Except StoreError (Option OpenStore) :=
    if useCache then
      let (files, opened) := fs.openStore root (Settings.cacheDirectory env)
      (files, opened.map some)
    else (fs, .ok none)
  match store with
  | .error e => ({ files, registry }, some (.store e))
  | .ok store =>
    visitAll root store (files.sourceFiles root (Settings.excluded env)) { files, registry }

/-- Scans a project with a new registry. -/
def run (fs : FileSystem) (env : Environment) (root : Path) (useCache : Bool) :
    Scan × Option Failure :=
  fill [] fs env root useCache

end Scan

end JsxOrigin
