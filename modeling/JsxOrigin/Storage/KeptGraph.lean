import JsxOrigin.Json.Writer
import JsxOrigin.ModuleGraph.Codec
import JsxOrigin.Storage.OpenStore

/-!
# Kept graphs

A graph is kept in a store under the path of its file, as a text, with the mark that the file had.
It counts as long as the file has that mark. A kept text that is no graph counts as absent.
-/

namespace JsxOrigin

namespace FileSystem

/-- The key of a path in a store. -/
def storeKey (path : Path) : Except StoreError Text :=
  if path.text.hasSurrogate then .error (.path .unencodable) else .ok path.text

/-- The mark of what stands at a path. -/
def markOf (fs : FileSystem) (path : Path) : Except StoreError (Option Mark) :=
  (fs.mark path).mapError .path

/-- Whether the graph that is kept for a path counts. -/
def isKept (fs : FileSystem) (s : OpenStore) (path : Path) : Except StoreError Bool := do
  match ← fs.markOf path with
  | none => return false
  | some mark =>
    let held ← fs.readStore s
    return held.isCurrent (← storeKey path) mark

/-- The graph that a kept text spells, if it spells one. An integer with too many digits is not
forgiven. -/
def graphOfText (t : Text) : Except StoreError (Option (ModuleGraph Json)) :=
  match Json.parse t with
  | .ok j => .ok (ModuleGraph.ofJson j).toOption
  | .error .malformed => .ok none
  | .error e => .error (.text e)

/-- The graph that is kept for a path. -/
def keptGraph (fs : FileSystem) (s : OpenStore) (path : Path) :
    Except StoreError (Option (ModuleGraph Json)) := do
  match ← fs.markOf path with
  | none => return none
  | some mark =>
    let held ← fs.readStore s
    match held.text? (← storeKey path) mark with
    | some t => graphOfText t
    | none => return none

/-- Keeps the graph of a path, if something stands there. -/
def keepGraph (fs : FileSystem) (s : OpenStore) (path : Path) (g : ModuleGraph Json) :
    Except StoreError FileSystem := do
  match ← fs.markOf path with
  | none => return fs
  | some mark =>
    let held ← fs.readStore s
    fs.writeStore s (held.keep (← storeKey path) mark g.toJson.render)

/-- Drops the graph of a path. If none is kept, nothing is written. -/
def dropGraph (fs : FileSystem) (s : OpenStore) (path : Path) : Except StoreError FileSystem := do
  let held ← fs.readStore s
  let key ← storeKey path
  if held.keeps key then fs.writeStore s (held.drop key) else return fs

/-- Drops all graphs. -/
def clearStore (fs : FileSystem) (s : OpenStore) : Except StoreError FileSystem := do
  let _ ← fs.readStore s
  fs.writeStore s {}

/-- Replaces the text of a graph that is kept, or drops it. If that changes nothing, nothing is
written. -/
def replaceGraphText (fs : FileSystem) (s : OpenStore) (path : Path) (text : Option Text) :
    Except StoreError FileSystem := do
  let held ← fs.readStore s
  let key ← storeKey path
  if text.any Text.hasSurrogate then throw (.path .unencodable)
  match Table.get? key held.graphs with
  | none => return fs
  | some kept =>
    if text = some kept then return fs else fs.writeStore s (held.replaceText key text)

end FileSystem

end JsxOrigin
