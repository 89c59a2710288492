import JsxOrigin.Json.Reader
import JsxOrigin.Settings.TolerantJson
import JsxOrigin.Storage.FileSystem
import JsxOrigin.Storage.TextualPath
import JsxOrigin.Text.Lines

/-!
# Path mappings

A configuration file of a project can map patterns of import sources to patterns of files. The
targets are relative to a base directory, which is relative to the configuration file.
-/

namespace JsxOrigin

/-- Patterns of sources with the patterns of files that they mean. -/
abbrev Aliases := Table Text (List Text)

namespace Tsconfig

/-- Why a configuration file cannot be used. -/
inductive ConfigurationError where
  /-- The system does not tell whether the file is there. -/
  | file (e : FileError)
  /-- The text of the file goes beyond what is read. -/
  | unreadable (e : Json.ReadError)
  /-- The options or the mappings are something other than an object. -/
  | notAnObject
  /-- The base directory is no text. -/
  | baseNotText
deriving DecidableEq

/-- The content of a configuration file, if it is one. A file that is no JSON counts as absent, but
one that goes beyond what is read does not. -/
def load (fs : FileSystem) (path : Path) : Except ConfigurationError (Option Json) :=
  match fs.data? path with
  | .error e => .error (.file e)
  | .ok data =>
    match data.bind fun d => Text.ofFile? d.bytes with
    | none => .ok none
    | some t =>
      match Json.parse (clean t) with
      | .ok j => .ok (some j)
      | .error .malformed => .ok none
      | .error e => .error (.unreadable e)

/-- A member of an object, which may be absent or say nothing. -/
def section? (members : List (Text × Json)) (key : String) :
    Except ConfigurationError (List (Text × Json)) :=
  match Table.get? (Text.ofString key) members with
  | some (.obj inner) => .ok inner
  | some j => if j.isPresent then .error .notAnObject else .ok []
  | none => .ok []

/-- The texts among the targets of a pattern. -/
def targetTexts : Json → Option (List Text)
  | .arr targets => some (targets.filterMap Json.text?)
  | _ => none

/-- The mappings in the content of a configuration file; `directory` is where it stands. -/
def aliasesIn (directory : Text) (data : List (Text × Json)) :
    Except ConfigurationError Aliases := do
  let options ← section? data "compilerOptions"
  let paths ← section? options "paths"
  let mapped := paths.filterMap fun (pattern, j) => (targetTexts j).map (pattern, ·)
  match (Table.get? (Text.ofString "baseUrl") options).filter Json.isPresent with
  | none => return mapped.map (resolveTargets ".")
  | some (.str base) => return mapped.map (resolveTargets base)
  | some _ => if mapped.all (·.2.isEmpty) then return mapped else throw .baseNotText
where
  /-- Targets with the base directory in front, normalised. -/
  resolveTargets (base : Text) (mapping : Text × List Text) : Text × List Text :=
    (mapping.1, mapping.2.map fun target =>
      Text.normalPath (Text.joinPath (Text.joinPath directory base) target))

/-- The mappings of a project; `name` is where its configuration file stands. -/
def aliases (fs : FileSystem) (root : Path) (name : Text) : Except ConfigurationError Aliases := do
  match ← load fs (root.join (.ofText name)) with
  | some (.obj data) => aliasesIn (Text.directory (Path.ofText name).text) data
  | _ => return []

end Tsconfig

end JsxOrigin
