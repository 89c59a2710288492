import JsxOrigin.Storage.Path

/-!
# Paths as plain texts

Joining and normalising paths that are compared as texts and never looked up: module specifiers
against the paths of known modules, and targets of path mappings. Normalising keeps exactly two
slashes in front if there are exactly two.
-/

namespace JsxOrigin

namespace Text

/-- A path text below another one. An absolute text replaces what stands before it. -/
def joinPath (t part : Text) : Text :=
  if Text.startsWith part "/" || t.isEmpty then part
  else if Text.endsWith t "/" then t ++ part
  else t ++ "/" ++ part

/-- The text up to its last slash, without slashes at its end unless there is nothing else. -/
def directory (t : Text) : Text :=
  let head := (t.reverse.dropWhile (· ≠ .scalar '/')).reverse
  let trimmed := (head.reverse.dropWhile (· = .scalar '/')).reverse
  if trimmed.isEmpty then head else trimmed

/-- Takes one more name on a normalised path, given in reverse. Two dots lead back, or stay at the
front of a relative path. -/
def normalStep (absolute : Bool) (reversed : List Text) (name : Text) : List Text :=
  if name ≠ Path.up then name :: reversed
  else match reversed with
    | [] => if absolute then [] else [name]
    | last :: rest => if last = Path.up then name :: reversed else rest

/-- A path text with dots folded and slashes single. -/
def normalPath (t : Text) : Text :=
  let p := Path.ofText t
  let names := (p.names.foldl (normalStep p.isAbsolute) []).reverse
  Path.text { p with names }

end Text

end JsxOrigin
