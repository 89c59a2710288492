import JsxOrigin.Project.Dependencies
import JsxOrigin.Settings.PathMapping

/-!
# Resolving import sources

Which file an import source means, by the rules of bundlers. A relative source starts at the
directory of the importing file. Any other source starts at the target of the longest matching
alias, or else at the root of the project. The file is looked for under the exact path, then with
an ending added, then as the index file of a directory.
-/

namespace JsxOrigin

/-- A project root with the aliases of its sources. -/
structure Resolver where
  root : Path
  aliases : Table Text Text

/-- Why a source cannot be resolved. -/
inductive ResolveError where
  /-- An ending is to be added to a path that has no name. -/
  | noName
  /-- No file can have the path. -/
  | path (e : PathError)
  /-- The system does not tell what stands at a path. -/
  | file (e : FileError)
  /-- The source is no text. -/
  | sourceNotText
deriving DecidableEq

namespace Resolver

/-- The star at the end of a pattern. -/
def star : Text := "/*"

/-- The resolver of a project. The first target of a pattern counts. -/
def ofAliases (root : Path) (aliases : Aliases) : Resolver where
  root := root
  aliases := aliases.foldl
    (fun table (pattern, targets) =>
      match targets with
      | target :: _ => Table.set (Text.replace star [] pattern) (Text.replace star [] target) table
      | [] => table)
    []

/-! ## Probing -/

/-- The file that a path means. -/
def probe (fs : FileSystem) (p : Path) : Except ResolveError (Option Path) := do
  if ← (fs.isFile p).mapError .file then return some p
  let some extended := sourceEndings.mapM p.withExtension? | throw .noName
  if let some found ← (fs.firstFile extended).mapError .file then return some found
  if !(← (fs.isDirectory p).mapError .file) then return none
  let inside := sourceEndings.map fun ending => p.child ("index" ++ ending)
  (fs.firstFile inside).mapError .file

/-- The alias that decides about a source: the longest one that is the source or a directory of
it. -/
def alias? (r : Resolver) (source : Text) : Option (Text × Text) :=
  (r.aliases.filter fun (pattern, _) =>
    source == pattern || Text.startsWith source (pattern ++ "/")).foldl
    (fun best candidate =>
      match best with
      | some b => if b.1.length < candidate.1.length then some candidate else best
      | none => some candidate)
    none

/-- The path at which a source that is not relative is looked for. -/
def start (r : Resolver) (source : Text) : Path :=
  match r.alias? source with
  | some (pattern, target) =>
    let remainder := (source.drop pattern.length).dropWhile (· = .scalar '/')
    (r.root.join (.ofText target)).join (.ofText remainder)
  | none => r.root.join (.ofText source)

/-- The file that a source means in a file, as a path without two dots. -/
def resolve (r : Resolver) (fs : FileSystem) (file : Path) (source : Text) :
    Except ResolveError (Option Path) := do
  if source.isEmpty then return none
  let current := r.root.join file
  if Text.startsWith source "." then
    let candidate := current.parent.join (.ofText source)
    if let some e := candidate.firstError? then throw (.path e)
    let found ← probe fs (candidate.resolve r.root)
    return found.map (·.resolve r.root)
  else
    let found ← probe fs (r.start source)
    return found.map (·.resolve r.root)

/-- The registered file that a source means: registered by its whole path, or by its path below the
root. -/
def target (r : Resolver) (fs : FileSystem) (registry : Registry) (file : Text) (source : Json) :
    Except ResolveError (Option Text) := do
  match source with
  | .str t =>
    let some found ← r.resolve fs (.ofText file) t | return none
    if Table.has found.text registry then return some found.text
    let some names := found.below? r.root | return none
    let shown := Path.text ⟨.relative, names⟩
    return if Table.has shown registry then some shown else none
  | j => if j.isPresent then throw .sourceNotText else return none

end Resolver

end JsxOrigin
