import JsxOrigin.Project.Registry
import JsxOrigin.Storage.TextualPath

/-!
# Dependencies

Which module depends on which: a module depends on another one if it imports or re-exports from a
source that resolves to it. How sources are resolved is a parameter. `Registry.target?` resolves
relative sources by comparing texts; the resolver of a project looks at its files.
-/

namespace JsxOrigin

/-- The endings that are tried when a source does not name a file, in order. -/
def sourceEndings : List Text :=
  [".ts", ".tsx", ".d.ts", ".js", ".jsx", ".mjs", ".cjs", ".json"]

/-- How a module depends on another one. -/
inductive DependencyKind where
  | imports
  | reexports
deriving DecidableEq

/-- The name of a kind of dependency. -/
def DependencyKind.name : DependencyKind → Text
  | imports => "import"
  | reexports => "reexport"

/-- A module that depends on another one, with the names that it takes from there. -/
structure Dependency where
  source : Text
  target : Text
  kind : DependencyKind
  names : List Json

/-- Modules by file, and which of them depends on which. -/
structure DependencyGraph where
  nodes : List Text
  edges : List Dependency

namespace Registry

/-! ## Resolving by text -/

/-- The files that a relative source can mean, best first. -/
def candidates (file source : Text) : List Text :=
  let base := Text.normalPath (Text.joinPath (Text.directory file) source)
  [base] ++ sourceEndings.map (base ++ ·) ++
    sourceEndings.map fun ending => Text.joinPath base ("index" ++ ending)

/-- The registered file that a source means. Only relative sources mean one. -/
def target? (r : Registry) (file source : Text) : Option Text :=
  if Text.startsWith source "." then (candidates file source).find? (Table.has · r) else none

/-! ## Edges -/

/-- Adds a name to the dependency of a module on another one. A re-export outweighs an import. -/
def addDependency (kind : DependencyKind) (source target : Text) (name : Json) :
    List Dependency → List Dependency
  | [] => [⟨source, target, kind, [name]⟩]
  | d :: rest =>
    if d.source = source ∧ d.target = target then
      { d with
        kind := if kind = .reexports then kind else d.kind
        names := if d.names.any (·.same name) then d.names else d.names ++ [name] } :: rest
    else d :: addDependency kind source target name rest

/-- The sources that a module takes names from, in order: imports, then re-exports. -/
def takes (g : ModuleGraph Json) : List (DependencyKind × Json × Json) :=
  g.imports.map (fun r => (.imports, r.source, r.localName)) ++
    g.reexports.map fun r => (.reexports, r.source, r.exported)

/-- The dependencies between modules, by file. -/
def dependencies {ε : Type} (r : Registry) (resolve : Text → Json → Except ε (Option Text)) :
    Except ε DependencyGraph := do
  let rows := r.entries.flatMap fun (file, g) => (takes g).map (file, ·)
  let found ← rows.foldlM
    (fun ds (file, kind, source, name) => do
      match ← resolve file source with
      | some target =>
        return if target = file then ds else addDependency kind file target name ds
      | none => return ds)
    []
  let edges := found.mergeSort fun a b =>
    if a.source = b.source then Text.le a.target b.target else Text.le a.source b.source
  return { nodes := r.files, edges }

/-- Resolves a source by comparing texts. -/
def resolveText (r : Registry) (file : Text) : Json → Except QueryError (Option Text)
  | .str source => .ok (r.target? file source)
  | _ => .error .sourceNotText

end Registry

end JsxOrigin
