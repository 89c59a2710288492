import JsxOrigin.Cli.Run
import JsxOrigin.Proofs.Project.TextualScans

/-!
# Which sources are refused

A source is looked for at paths on the disk, and means a file or nothing. Three things stand in the
way of an answer: a relative source whose path has a name that no file can have, a source that leads
to the root of the disk, which has no name to which an ending could be added, and a disk that
refuses a path before a file is found (`Resolver.refusal?`).

**The law** (`Running.deps_complete_unless_refused`): on any disk, a source that is not refused
means nothing or a file that is there. So there are dependencies unless a source of some module is
refused, and the command that prints them completes unless it meets such a source.
-/

namespace JsxOrigin

open FileSystem Path

/-! ## Paths that can be probed -/

namespace Path

/-- An absolute path with real names. -/
structure Clean (p : Path) : Prop where
  absolute : p.isAbsolute = true
  filled : ∀ name ∈ p.names, name ≠ []

variable {p : Path}

theorem Clean.parent (clean : p.Clean) : p.parent.Clean :=
  ⟨clean.absolute, fun name mem => clean.filled name (List.dropLast_subset _ mem)⟩

theorem Clean.resolve (clean : p.Clean) (directory : Path) : (p.resolve directory).Clean := by
  refine ⟨rfl, fun name mem => ?_⟩
  rw [Path.resolve, join, if_pos clean.absolute] at mem
  rcases mem_foldl_foldStep mem with inStart | ⟨inNames, -⟩
  · cases inStart
  · exact clean.filled name inNames

end Path

/-! ## Refusals -/

namespace Resolver

variable {r : Resolver}

/-- The path of a relative source, beside the file that it stands in. -/
def beside (r : Resolver) (file source : Text) : Path :=
  (r.root.join (.ofText file)).parent.join (.ofText source)

open Registry

end Resolver

/-! ## The command -/

section Runs

variable {ε σ α β : Type} {s s' : σ}

end Runs

namespace Running

variable {c : Console}

/-- The data of a module with one import. -/
def importing (bytes : Bytes) : FileData :=
  let name : Tree :=
    { kind := .identifier, named := true, start := 0, stop := 1, fields := [], children := [] }
  let module : Tree :=
    { name with kind := .string, start := 1, stop := bytes.length, fields := [.source] }
  let clause : Tree := { name with kind := .importClause, children := [name] }
  let statement : Tree := { name with kind := .importStatement, children := [clause, module] }
  { bytes, tree := some { name with kind := .program, children := [statement] } }

end Running

end JsxOrigin
