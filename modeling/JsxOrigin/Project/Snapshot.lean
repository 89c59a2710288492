import JsxOrigin.Project.Workspace
import JsxOrigin.Syntax.Codec

/-!
# Workspaces as JSON

A workspace is read from an object with files and an environment. Files are given by their paths at
the current directory: null for a directory, a string for a text, or an object with the text or the
bytes, the time of the last change, and the syntax tree of a module.
-/

namespace JsxOrigin

/-- The bytes that pairs of hexadecimal digits spell. -/
def Bytes.ofHexadecimal : Text → Bytes
  | a :: b :: rest => UInt8.ofNat (Text.numeral 16 [a, b]) :: Bytes.ofHexadecimal rest
  | _ => []

namespace Snapshot

/-- The directory in which snapshots are laid out. -/
def root : Path := ⟨.root, ["tmp", "workspace", "root"]⟩

/-- The time of the last change of a file for which none is given, in seconds. -/
def defaultTime : Int := 1000000000

/-- The bytes in an object: those that `hex` spells, or those of the text in `source`. -/
def bytes (j : Json) : Bytes :=
  match (j.member? "hex").bind Json.text? with
  | some t => Bytes.ofHexadecimal t
  | none => (((j.member? "source").bind Json.text?).bind Utf8.encode?).getD []

/-- The content of a file; null is none. -/
def data? : Json → Option FileData
  | .null => none
  | .str t => some { bytes := (Utf8.encode? t).getD [] }
  | j => some { bytes := bytes j, tree := (j.member? "tree").bind Tree.ofJson? }

/-- The time of the last change of a file. -/
def time (j : Json) : Time := .seconds (((j.member? "mtime").bind Json.int?).getD defaultTime)

/-- Puts a directory or a file at a path, with the directories above it. -/
def place (fs : FileSystem) (path : Path) (entry : Json) : FileSystem × Except FileError Unit :=
  match data? entry with
  | none => fs.makeDirectories path
  | some data =>
    match fs.makeDirectories path.parent with
    | (made, .ok ()) =>
      match made.write path data made.now with
      | .ok written => written.attempt (written.touch path (time entry))
      | .error e => (made, .error e)
    | refused => refused

/-- The variables in an object. -/
def environment (j : Option Json) : Environment :=
  match j with
  | some (.obj members) => members.filterMap fun (name, v) => v.text?.map (name, ·)
  | _ => []

/-- The workspace of an object. What cannot be placed is left out. -/
def workspace (j : Json) : Workspace :=
  let start : FileSystem := (FileSystem.makeDirectories {} root).1
  let files :=
    match j.member? "files" with
    | some (.obj entries) =>
      entries.foldl
        (fun fs (name, entry) => (place fs (root.join (.ofText name)) entry).1)
        start
    | _ => start
  { files, cwd := root, cwdNumber := files.directoryNumber? root.names
    environment := environment (j.member? "env") }

end Snapshot

end JsxOrigin
