import JsxOrigin.Json.Basic
import JsxOrigin.ModuleGraph.Codec

/-!
# Registries

The graphs of the modules of a project by file, and what can be asked about them. Every answer goes
through the modules in the order of their files, so it does not depend on when they were added.
-/

namespace JsxOrigin

/-- The graphs of modules by file. -/
abbrev Registry := Table Text (ModuleGraph Json)

/-- Why a registry cannot answer. -/
inductive QueryError where
  /-- A text was looked for in a value that holds no texts. -/
  | notSearchable
  /-- An array or an object stands where a name is wanted. -/
  | notAName
  /-- The source of an import is no text. -/
  | sourceNotText
deriving DecidableEq

namespace Registry

/-- Adds a module, in place of an earlier one of the same file. -/
def put (file : Text) (g : ModuleGraph Json) (r : Registry) : Registry := Table.set file g r

/-- Drops all modules. -/
def reset (_ : Registry) : Registry := []

/-- The graph of a file. -/
def get? (file : Text) (r : Registry) : Option (ModuleGraph Json) := Table.get? file r

/-- The files in order. -/
def files (r : Registry) : List Text := Text.sort (Table.keys r)

/-- The modules in the order of their files. -/
def entries (r : Registry) : List (Text × ModuleGraph Json) :=
  r.mergeSort fun a b => Text.le a.1 b.1

/-- A registry as JSON. -/
def toJson (r : Registry) : Json := .obj (r.entries.map fun (file, g) => (file, g.toJson))

/-! ## Looking for literals -/

/-- Whether a value holds what is looked for: a text holds a text as a part, an array an item, and
an object a key. -/
def holds (wanted : Json) : Json → Except QueryError Bool
  | .str t =>
    match wanted with
    | .str part => .ok (Text.occursIn part t)
    | _ => .error .notSearchable
  | .arr items => .ok (items.any (·.same wanted))
  | .obj members =>
    match wanted with
    | .str key => .ok (Table.has key members)
    | _ => if wanted.isScalar then .ok false else .error .notAName
  | _ => .error .notSearchable

/-- Whether the text of a row is the one looked for, or holds it. -/
def matchesText (wanted : Json) (exact : Bool) (value : Json) : Except QueryError Bool :=
  if exact then .ok (value.same wanted) else holds wanted value

/-- The items of a list that pass a test which can fail. -/
def keep {α : Type} (test : α → Except QueryError Bool) : List α → Except QueryError (List α)
  | [] => .ok []
  | a :: rest => do
    let passes ← test a
    let kept ← keep test rest
    return if passes then a :: kept else kept

/-- The literal rows with a text, each with its file. -/
def literals (wanted : Json) (exact : Bool) (r : Registry) :
    Except QueryError (List (Text × LiteralRow Json)) :=
  keep (fun row => matchesText wanted exact row.2.text)
    (r.entries.flatMap fun (file, g) => g.literals.map (file, ·))

/-! ## Looking for names -/

/-- The mutation rows of a name, each with its file. -/
def mutations (root : Json) (r : Registry) : List (Text × MutationRow Json) :=
  (r.entries.flatMap fun (file, g) => g.mutations.map (file, ·)).filter fun row =>
    row.2.root.same root

/-- The names that a module exports by itself or from elsewhere. -/
def exportedNames (g : ModuleGraph Json) : Except QueryError (List Json) :=
  let names := g.exports.map (·.exported) ++ g.reexports.map (·.exported)
  if names.all Json.isScalar then .ok names else .error .notAName

/-- Whether a module exports a name. -/
def exportsName (name : Json) (g : ModuleGraph Json) : Except QueryError Bool := do
  let names ← exportedNames g
  if name.isScalar then return names.any (·.same name) else throw .notAName

/-- The files that export a name. -/
def exporters (name : Json) (r : Registry) : Except QueryError (List Text) := do
  let found ← keep (fun (_, g) => exportsName name g) r.entries
  return found.map Prod.fst

end Registry

end JsxOrigin
