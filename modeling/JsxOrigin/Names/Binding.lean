import JsxOrigin.Syntax.Literal
import JsxOrigin.Table

/-!
# Bindings

The table of the names that a module declares: variables with their initializers, functions with
the place of their body, and imported names with the module they come from. The table is flat:
blocks open no scope, and a later declaration of a name replaces an earlier one in its place.
-/

namespace JsxOrigin

/-- Where an imported name comes from. -/
structure ImportOrigin where
  /-- The module, as the import statement writes it. -/
  module : Text
  /-- The name there; `default` or `*` for a default or a namespace import. -/
  imported : Text
deriving DecidableEq

/-- What is known about a declared name. Initializers have type `ι`. -/
structure Binding (ι : Type) where
  name : Text
  definition : Text
  init : Option ι := none
  importOrigin : Option ImportOrigin := none
  body : Option Text := none

/-- The declared names of a module, in the order of their first declaration. -/
abbrev Bindings (ι : Type) := Table Text (Binding ι)

/-- Declares a name, in place of what was known about it. -/
def Bindings.record {ι : Type} (b : Binding ι) (bs : Bindings ι) : Bindings ι :=
  Table.set b.name b bs

/-- What is known about a name. -/
def Bindings.lookup {ι : Type} (bs : Bindings ι) (name : Text) : Option (Binding ι) :=
  Table.get? name bs

/-! ## Import statements -/

/-- A local name of an import statement with the name that it imports. -/
abbrev ImportSpecifier := Tree × Text

namespace Source

/-- The names of one specifier in braces. A name that is written as a string is reported by the
local name. -/
def namedSpecifier? (s : Source) (t : Tree) : Option ImportSpecifier :=
  if t.kind = .importSpecifier then
    (t.field? .name).map fun name =>
      let localName := (t.field? .renamed).getD name
      (localName, if name.kind = .string then s.text localName else s.text name)
  else none

/-- The names that a part of an import clause declares. -/
def clauseSpecifiers (s : Source) (t : Tree) : List ImportSpecifier :=
  match t.kind with
  | .identifier => [(t, "default")]
  | .namespaceImport => (t.namedChildren.filter (·.kind = .identifier)).map fun n => (n, "*")
  | .namedImports => t.namedChildren.filterMap s.namedSpecifier?
  | _ => []

/-- The names that an import statement declares. -/
def importSpecifiers (s : Source) (t : Tree) : List ImportSpecifier :=
  (t.namedChildren.filter (·.kind = .importClause)).flatMap fun clause =>
    clause.namedChildren.flatMap s.clauseSpecifiers

/-! ## Collecting -/

/-- The bindings that a single node declares. -/
def declared (s : Source) (t : Tree) : List (Binding Tree) :=
  match t.kind with
  | .declarator =>
    match t.field? .name with
    | some name =>
      if name.kind = .identifier then
        [{ name := s.text name, definition := s.span name, init := t.field? .value }]
      else []
    | none => []
  | .functionDeclaration | .generatorDeclaration =>
    match t.field? .name with
    | some name =>
      [{ name := s.text name, definition := s.span name,
         body := (t.field? .body).map fun (body : Tree) => s.span body }]
    | none => []
  | .importStatement =>
    match t.field? .source with
    | some source =>
      let module := s.stringValue source
      (s.importSpecifiers t).map fun (n, imported) =>
        { name := s.text n, definition := s.span n, importOrigin := some { module, imported } }
    | none => []
  | _ => []

/-- The bindings of a module. Nothing inside an import statement declares a name of its own. -/
def bindings (s : Source) (root : Tree) : Bindings Tree :=
  ((Tree.walk (·.kind ≠ .importStatement) [root]).flatMap s.declared).foldl
    (fun bs b => Bindings.record b bs) []

end Source

end JsxOrigin
