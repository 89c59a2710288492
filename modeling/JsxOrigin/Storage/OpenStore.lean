import JsxOrigin.Json.Reader
import JsxOrigin.Storage.FileSystem

/-!
# Open stores

A project keeps its graphs in a store that is a file of the file system. Opening the store gives a
hold on that file, by its number. The store can be read as long as it is open, also when its name is
gone; it can be written only as long as its name still leads to it.

Whoever writes a store makes a journal beside it for the time being, so a write changes both the
file and its directory.
-/

namespace JsxOrigin

/-- Why a store cannot be used. -/
inductive StoreError where
  /-- The directory of the store cannot be made. -/
  | file (e : FileError)
  /-- The system does not let the store be opened. -/
  | refused (e : FileError)
  /-- A directory stands where the store was to be opened. -/
  | isADirectory
  /-- The file is no store. -/
  | notAStore
  /-- The file is empty, so it holds nothing that could be asked for. -/
  | empty
  /-- The name of the store leads elsewhere by now. -/
  | moved
  /-- The store is not open any more. -/
  | closed
  /-- No graph can be kept under the path. -/
  | path (e : PathError)
  /-- A kept text cannot be read. -/
  | text (e : Json.ReadError)
deriving DecidableEq

/-- A hold on a store: where it was opened, and the number of its file. -/
structure OpenStore where
  place : Place
  number : Nat
  isOpen : Bool := true
deriving DecidableEq

namespace OpenStore

/-- Gives a store up. -/
def close (s : OpenStore) : OpenStore := { s with isOpen := false }

end OpenStore

namespace FileSystem

/-! ## Opening -/

/-- The name of the file that is a store. -/
def storeName : Text := "graphs.db"

/-- Whether a content is as good as empty: a single byte does not count. -/
def isEmptyContent (d : FileData) : Bool := d.bytes.length ≤ 1

/-- Writes a store into a file that has a name. -/
def writeNamed (fs : FileSystem) (place : Place) (node : FileNode) (s : GraphStore) : FileSystem :=
  (fs.put place (.file { node with changed := fs.now, content := .store s })).stamp place.dropLast

/-- Opens the store at a place. A new store takes the place of nothing and of an empty file. -/
def openStoreAt (fs : FileSystem) (place : Place) : FileSystem × Except StoreError OpenStore :=
  match fs.entry? place with
  | some (.directory ..) => (fs, .error .isADirectory)
  | some (.file node) =>
    if fs.sealed.contains place then (fs, .error (.refused .denied))
    else
      match node.content with
      | .store _ => (fs, .ok { place, number := node.number })
      | .data d =>
        if isEmptyContent d then (fs.writeNamed place node {}, .ok { place, number := node.number })
        else (fs, .error .notAStore)
  | none =>
    (fs.add place (.file ⟨fs.clock, fs.now, .store {}⟩), .ok { place, number := fs.clock })

/-- Opens the store in a directory of a project, which is made if it is not there. -/
def openStore (fs : FileSystem) (root : Path) (directory : Text) :
    FileSystem × Except StoreError OpenStore :=
  let path := root.join (.ofText directory)
  match fs.makeDirectories path with
  | (made, .error e) => (made, .error (.file e))
  | (made, .ok ()) =>
    match made.target (path.child storeName).names with
    | .ok (place, _) => made.openStoreAt place
    | .error e => (made, .error (.refused e))

/-! ## Reading and writing -/

/-- The file of an open store, if its name still leads to it. -/
def named? (fs : FileSystem) (s : OpenStore) : Option FileNode :=
  ((fs.entry? s.place).bind Entry.node?).filter (·.number = s.number)

/-- The file of an open store, whether or not it has a name. -/
def held? (fs : FileSystem) (s : OpenStore) : Option FileNode :=
  (fs.named? s).or (fs.unnamed.find? (·.number = s.number))

/-- What an open store holds. -/
def readStore (fs : FileSystem) (s : OpenStore) : Except StoreError GraphStore :=
  if !s.isOpen then .error .closed
  else
    match (fs.held? s).map FileNode.content with
    | some (.store held) => .ok held
    | some (.data d) => .error (if isEmptyContent d then .empty else .notAStore)
    | none => .error .empty

/-- Writes what an open store holds. -/
def writeStore (fs : FileSystem) (s : OpenStore) (content : GraphStore) :
    Except StoreError FileSystem :=
  match fs.named? s with
  | some node => .ok (fs.writeNamed s.place node content)
  | none => .error .moved

end FileSystem

end JsxOrigin
