import JsxOrigin.Storage.GraphStore
import JsxOrigin.Storage.Path
import JsxOrigin.Syntax.Tree
import JsxOrigin.Text.Utf8

/-!
# File systems

Directories, files with their syntax trees, and graph stores, each at a place below the root. There
are no links, so a place is a list of names. A path is followed name by name as the system does it:
every name before the last one has to be a directory, and two dots lead to its parent.

A file is more than its name. It has a number of its own, and whoever has opened it keeps it when
its name is removed. A directory has a number too, and it changes when a name in it comes or goes.

Nothing at a path is one thing, and not being told what is there is another: names and paths can be
too long, and directories closed to whoever asks. Files can be sealed, so that they are there but
cannot be read.
-/

namespace JsxOrigin

/-- The content of a file that is no store. A module comes with its syntax tree. -/
structure FileData where
  bytes : Bytes
  tree : Option Tree := none

/-- The content of a file. -/
inductive Content where
  | data (d : FileData)
  | store (s : GraphStore)

/-- A file: its number, the time of its last change, and its content. -/
structure FileNode where
  number : Nat
  changed : Time
  content : Content

/-- What stands at a place. -/
inductive Entry where
  | directory (number : Nat) (changed : Time)
  | file (node : FileNode)

/-- A place below the root. -/
abbrev Place := List Text

/-- What stands at which place. The root is a directory and is not listed. -/
structure FileSystem where
  entries : Table Place Entry := []
  /-- The time of the last change of the root. -/
  rootChanged : Time := .moment 0
  /-- The places of files that may not be opened. -/
  sealed : List Place := []
  /-- The places of directories in which nothing may be looked up. What stands in them is seen by no
  one, and is not listed. -/
  closed : List Place := []
  /-- Files whose name was removed. -/
  unnamed : List FileNode := []
  /-- The number of moments that have passed. -/
  clock : Nat := 1

/-- Why the file system refuses. -/
inductive FileError where
  | notFound
  | alreadyExists
  | notADirectory
  | isADirectory
  /-- No file can have the path. -/
  | path (e : PathError)
  /-- No file can have the time. -/
  | time
  /-- A name or a path is too long. -/
  | tooLong
  /-- A directory is closed or a file is sealed. -/
  | denied
deriving DecidableEq

/-- Whether an error tells that nothing is there. -/
def FileError.isAbsence : FileError → Bool
  | notFound => true
  | notADirectory => true
  | path _ => true
  | _ => false

namespace Content

/-- The size of a content. That of a store is not told. -/
def size : Content → Nat
  | data d => d.bytes.length
  | store _ => 0

end Content

namespace Entry

/-- The file of an entry, unless that is a directory. -/
def node? : Entry → Option FileNode
  | directory .. => none
  | file node => some node

/-- The mark of an entry. -/
def mark : Entry → Mark
  | directory _ changed => { changed, size := 0 }
  | file node => { changed := node.changed, size := node.content.size }

end Entry

namespace FileSystem

/-! ## What stands where -/

/-- What stands at a place. -/
def entry? (fs : FileSystem) (place : Place) : Option Entry :=
  if place = [] then some (.directory 0 fs.rootChanged) else Table.get? place fs.entries

/-- The number of the directory at a place. -/
def directoryNumber? (fs : FileSystem) (place : Place) : Option Nat :=
  match fs.entry? place with
  | some (.directory number _) => some number
  | _ => none

/-- Looks up a name in the directory at a place. -/
def enter (fs : FileSystem) (place : Place) (name : Text) : Except FileError Place :=
  match fs.entry? place with
  | some (.directory ..) =>
    if fs.closed.contains place then .error .denied
    else if Path.longestName < Path.nameSize name then .error .tooLong
    else .ok (Path.foldStep place name)
  | some (.file _) => .error .notADirectory
  | none => .error .notFound

/-- Follows names from a place: the place that they lead to, if each name but the last one is that
of a directory. -/
def follow (fs : FileSystem) (place : Place) : List Text → Except FileError Place
  | [] => .ok place
  | name :: rest =>
    match fs.enter place name with
    | .ok next => fs.follow next rest
    | .error e => .error e

/-- The place that names lead to from the root, and what stands there. -/
def target (fs : FileSystem) (names : List Text) : Except FileError (Place × Option Entry) := do
  if Path.longestPath < Path.size names then throw .tooLong
  let place ← fs.follow [] names
  return (place, fs.entry? place)

/-- The place that a path leads to and what stands there. -/
def locate (fs : FileSystem) (path : Path) : Except FileError (Place × Entry) := do
  if let some e := path.error? then throw (.path e)
  match ← fs.target path.names with
  | (place, some entry) => return (place, entry)
  | (_, none) => throw .notFound

/-- What stands where a path leads. -/
def at? (fs : FileSystem) (path : Path) : Option Entry := (fs.locate path).toOption.map Prod.snd

/-- Whether something stands where a path leads. -/
def exists? (fs : FileSystem) (path : Path) : Bool := (fs.at? path).isSome

/-- What stands where a path leads, if the system tells. -/
def look (fs : FileSystem) (path : Path) : Except FileError (Option Entry) :=
  match fs.locate path with
  | .ok (_, entry) => .ok (some entry)
  | .error e => if e.isAbsence then .ok none else .error e

/-- Whether a path leads to a directory. -/
def isDirectory (fs : FileSystem) (path : Path) : Except FileError Bool := do
  match ← fs.look path with
  | some (.directory ..) => return true
  | _ => return false

/-- Whether a path leads to a file. -/
def isFile (fs : FileSystem) (path : Path) : Except FileError Bool := do
  match ← fs.look path with
  | some (.file _) => return true
  | _ => return false

/-- The first of some paths that leads to a file. -/
def firstFile (fs : FileSystem) : List Path → Except FileError (Option Path)
  | [] => .ok none
  | path :: rest => do
    if ← fs.isFile path then return some path
    fs.firstFile rest

/-- Opens the file that a path leads to. -/
def content (fs : FileSystem) (path : Path) : Except FileError Content := do
  match ← fs.locate path with
  | (_, .directory ..) => throw .isADirectory
  | (place, .file node) => if fs.sealed.contains place then throw .denied else return node.content

/-- The data in the file that a path leads to. A file that cannot be opened has none, and neither
has a store. -/
def data? (fs : FileSystem) (path : Path) : Except FileError (Option FileData) := do
  if !(← fs.isFile path) then return none
  match fs.content path with
  | .ok (.data d) => return some d
  | _ => return none

/-- The mark of what a path leads to, if anything stands there. -/
def mark (fs : FileSystem) (path : Path) : Except PathError (Option Mark) :=
  match fs.locate path with
  | .ok (_, entry) => .ok (some entry.mark)
  | .error (.path e) => .error e
  | .error _ => .ok none

/-- The files below a place, with the names that lead there. -/
def filesBelow (fs : FileSystem) (place : Place) : List (List Text) :=
  fs.entries.filterMap fun (p, entry) =>
    match entry with
    | .directory .. => none
    | .file _ => if place.isPrefixOf p then some (p.drop place.length) else none

/-! ## Changes -/

/-- The present moment. -/
def now (fs : FileSystem) : Time := .moment fs.clock

/-- Puts an entry at a place, and lets the moment pass. The root is only changed. -/
def put (fs : FileSystem) (place : Place) (entry : Entry) : FileSystem :=
  if place = [] then { fs with rootChanged := entry.mark.changed, clock := fs.clock + 1 }
  else { fs with entries := Table.set place entry fs.entries, clock := fs.clock + 1 }

/-- Marks a directory as changed. -/
def stamp (fs : FileSystem) (place : Place) : FileSystem :=
  match fs.entry? place with
  | some (.directory number _) => fs.put place (.directory number fs.now)
  | _ => fs

/-- Puts an entry at a place where none stands, which changes the directory. -/
def add (fs : FileSystem) (place : Place) (entry : Entry) : FileSystem :=
  (fs.put place entry).stamp place.dropLast

/-- Makes a directory, whose parent has to be one. -/
def makeDirectory (fs : FileSystem) (names : List Text) : Except FileError FileSystem := do
  match ← fs.target names with
  | (place, none) => return fs.add place (.directory fs.clock fs.now)
  | (_, some _) => throw .alreadyExists

/-- Makes a directory if it is not there yet. -/
def ensureDirectory (fs : FileSystem) (names : List Text) : Except FileError FileSystem :=
  match fs.makeDirectory names with
  | .error .notFound => .error .notFound
  | .error e => do if ← fs.isDirectory ⟨.root, names⟩ then return fs else throw e
  | made => made

/-- The file system after a change that may be refused, and whether it was. -/
def attempt (fs : FileSystem) : Except FileError FileSystem → FileSystem × Except FileError Unit
  | .ok changed => (changed, .ok ())
  | .error e => (fs, .error e)

/-- Makes a directory with the directories above it, for names in reverse. -/
def makeAll (fs : FileSystem) : List Text → FileSystem × Except FileError Unit
  | [] => (fs, .ok ())
  | name :: above =>
    match fs.ensureDirectory (name :: above).reverse with
    | .error .notFound =>
      match fs.makeAll above with
      | (made, .ok ()) => made.attempt (made.ensureDirectory (name :: above).reverse)
      | refused => refused
    | result => fs.attempt result

/-- Makes a directory with the directories above it. Those that were made stay when another one is
refused. -/
def makeDirectories (fs : FileSystem) (path : Path) : FileSystem × Except FileError Unit :=
  match path.error? with
  | some e => (fs, .error (.path e))
  | none => fs.makeAll path.names.reverse

/-- Writes a file, which keeps its number if it is there already. -/
def write (fs : FileSystem) (path : Path) (data : FileData) (changed : Time) :
    Except FileError FileSystem := do
  if let some e := path.error? then throw (.path e)
  match ← fs.target path.names with
  | (_, some (.directory ..)) => throw .isADirectory
  | (place, some (.file node)) =>
    if fs.sealed.contains place then throw .denied
    return fs.put place (.file { node with changed, content := .data data })
  | (place, none) => return fs.add place (.file ⟨fs.clock, changed, .data data⟩)

/-- Removes what a path leads to, with everything below it. What comes there later is neither sealed
nor closed. -/
def remove (fs : FileSystem) (path : Path) : Except FileError FileSystem := do
  let (place, _) ← fs.locate path
  let (gone, left) := fs.entries.partition fun e => place.isPrefixOf e.1
  let removed : FileSystem :=
    { fs with
      entries := left
      sealed := fs.sealed.filter (!place.isPrefixOf ·)
      closed := fs.closed.filter (!place.isPrefixOf ·)
      unnamed := fs.unnamed ++ gone.filterMap (·.2.node?) }
  return removed.stamp place.dropLast

/-- Sets the time of the last change. -/
def touch (fs : FileSystem) (path : Path) (changed : Time) : Except FileError FileSystem := do
  if let some e := path.error? then throw (.path e)
  if !changed.isSettable then throw .time
  match ← fs.locate path with
  | (place, .file node) => return fs.put place (.file { node with changed })
  | (place, .directory number _) => return fs.put place (.directory number changed)

end FileSystem

end JsxOrigin
