import JsxOrigin.Syntax.Literal

/-!
# Static member paths

An access chain such as `a.b["c"][0].d` has the root `a` and the path `.b["c"][0].d`. It is static
if its root is a name and each index is a string or a number literal; parentheses do not matter.
-/

namespace JsxOrigin

/-- The root and the path of a static access chain. -/
structure AccessPath where
  root : Text
  path : Text
deriving DecidableEq

namespace Source

/-- What one member access adds to the path; nothing if it is not static. -/
def accessStep? (s : Source) (t : Tree) : Option Text :=
  if t.kind = .member then (t.field? .property).map fun p => "." ++ s.text p
  else
    (t.unwrapped? .index).bind fun index =>
      match index.kind with
      | .string => some ("[\"" ++ s.stringValue index ++ "\"]")
      | .number => some ("[" ++ s.numberKey index ++ "]")
      | _ => none

end Source

/-- Whether a node reads a property of an object. -/
def Kind.isAccess (k : Kind) : Bool := k == .member || k == .subscript

mutual

/-- The member path of an expression. -/
def Source.accessPath? (s : Source) : Tree → Option AccessPath
  | ⟨kind, named, start, stop, fields, children⟩ =>
    let t : Tree := ⟨kind, named, start, stop, fields, children⟩
    if kind = .parenthesized then s.accessPathInside? children
    else if kind.isAccess then do
      let step ← s.accessStep? t
      let base ← s.accessPathOfObject? children
      some { base with path := base.path ++ step }
    else if kind = .identifier then some { root := s.text t, path := [] }
    else none

/-- The member path of the first expression in parentheses. -/
def Source.accessPathInside? (s : Source) : List Tree → Option AccessPath
  | [] => none
  | c :: rest =>
    if c.named && c.kind != .comment then s.accessPath? c else s.accessPathInside? rest

/-- The member path of the object of an access. -/
def Source.accessPathOfObject? (s : Source) : List Tree → Option AccessPath
  | [] => none
  | c :: rest =>
    if c.fields.contains .object then s.accessPath? c else s.accessPathOfObject? rest

end

end JsxOrigin
