import JsxOrigin.ModuleGraph.LiteralIndex
import JsxOrigin.Names.AccessPath
import JsxOrigin.Names.Binding

/-!
# Collecting the graph of a module

The graph of a module is put together from its nodes in document order: each node contributes rows
to some of the tables. Nothing below an import statement or a re-export is looked at.
-/

namespace JsxOrigin

/-! ## Declarations and export statements -/

/-- Whether a node declares variables. -/
def Kind.declaresVariables (k : Kind) : Bool :=
  k == .lexicalDeclaration || k == .variableDeclaration

/-- Whether a node declares a function. -/
def Kind.declaresFunction (k : Kind) : Bool :=
  k == .functionDeclaration || k == .generatorDeclaration

/-- Whether a node declares a class. -/
def Kind.declaresClass (k : Kind) : Bool :=
  k == .classDeclaration || k == .abstractClassDeclaration

/-- Whether an expression can carry a name of its own where it is exported by default. -/
def Kind.isNameable (k : Kind) : Bool :=
  k == .functionExpression || k == .functionKeyword || k == .generatorFunction ||
    k == .classExpression

/-- The variables of a declaration: the name and the declarator of each. Patterns are left out. -/
def Tree.declaredVariables (t : Tree) : List (Tree × Tree) :=
  (t.namedChildren.filter (·.kind = .declarator)).filterMap fun d =>
    ((d.field? .name).filter (·.kind = .identifier)).map fun name => (name, d)

/-- The keyword that a declaration of variables starts with; `var` if it starts with none. -/
def Tree.declarationKeyword (t : Tree) : Text :=
  match t.children with
  | c :: _ =>
    match c.kind with
    | .letKeyword => "let"
    | .constKeyword => "const"
    | _ => "var"
  | [] => "var"

/-- Whether an export statement has the keyword `default`. -/
def Tree.isDefaultExport (t : Tree) : Bool := t.children.any (·.kind = .defaultKeyword)

/-- Whether a node is an export statement without a module to export from. -/
def Tree.isOwnExport (t : Tree) : Bool := t.kind = .exportStatement ∧ (t.field? .source).isNone

/-- What an export statement exports: a declaration, a value, or a list of names. -/
inductive ExportForm where
  | declaration (t : Tree)
  | value (t : Tree)
  | names (specifiers : List Tree)

/-- The form of an export statement without a module to export from. -/
def Tree.exportForm (t : Tree) : ExportForm :=
  match t.field? .declaration, t.unwrapped? .value with
  | some declaration, _ => .declaration declaration
  | none, some value => .value value
  | none, none => .names ((t.childOfKind? .exportClause).elim [] (·.namedChildren))

/-- The name of a value that is exported by default: the value itself if it is a name, or the name
that a function or class expression carries. -/
def Tree.defaultName? (value : Tree) : Option Tree :=
  if value.kind = .identifier then some value
  else if value.kind.isNameable then value.field? .name
  else none

/-- Whether a pass that collects a graph goes below a node. -/
def Tree.entersForGraph (t : Tree) : Bool :=
  !(t.kind = .importStatement ∨ (t.kind = .exportStatement ∧ (t.field? .source).isSome))

namespace Source

/-! ## Imports and re-exports -/

/-- The rows of an import statement. -/
def importRows (s : Source) (t : Tree) : List (ImportRow Text) :=
  match t.kind, t.field? .source with
  | .importStatement, some source =>
    (s.importSpecifiers t).map fun (n, imported) =>
      ⟨s.text n, imported, s.stringValue source, s.span n⟩
  | _, _ => []

/-- The row of a specifier of a re-export. -/
def reexportSpecifier? (s : Source) (module : Text) (t : Tree) : Option (ReexportRow Text) :=
  if t.kind = .exportSpecifier then
    (t.field? .name).map fun name =>
      ⟨s.exportName ((t.field? .renamed).getD name), s.exportName name, module, s.span t⟩
  else none

/-- The rows of an export statement that names a module to export from. -/
def reexportRows (s : Source) (t : Tree) : List (ReexportRow Text) :=
  match t.kind, t.field? .source with
  | .exportStatement, some source =>
    let module := s.stringValue source
    match t.childOfKind? .exportClause, t.childOfKind? .namespaceExport with
    | some clause, _ => clause.namedChildren.filterMap (s.reexportSpecifier? module)
    | none, some all =>
      let exported : Text :=
        match all.namedChildren with
        | name :: _ => s.exportName name
        | [] => "*"
      [⟨exported, "*", module, s.span all⟩]
    | none, none => [⟨"*", "*", module, s.span t⟩]
  | _, _ => []

/-! ## Exports -/

/-- The export row of a specifier. -/
def exportSpecifier? (s : Source) (t : Tree) : Option (ExportRow Text) :=
  if t.kind = .exportSpecifier then
    ((t.field? .name).filter (·.kind = .identifier)).map fun name =>
      ⟨s.exportName ((t.field? .renamed).getD name), s.text name, s.span name⟩
  else none

/-- The export rows of a declaration that is exported. -/
def exportedDeclaration (s : Source) (isDefault : Bool) (declaration : Tree) :
    List (ExportRow Text) :=
  if declaration.kind.declaresVariables then
    declaration.declaredVariables.map fun (name, _) => ⟨s.text name, s.text name, s.span name⟩
  else if declaration.kind.declaresFunction || declaration.kind.declaresClass then
    (declaration.field? .name).toList.map fun name =>
      ⟨if isDefault then "default" else s.text name, s.text name, s.span name⟩
  else []

/-- The export rows of a node. -/
def exportRows (s : Source) (t : Tree) : List (ExportRow Text) :=
  if t.isOwnExport then
    match t.exportForm with
    | .declaration d => s.exportedDeclaration t.isDefaultExport d
    | .value v =>
      if t.isDefaultExport then
        v.defaultName?.toList.map fun name => ⟨"default", s.text name, s.span name⟩
      else []
    | .names specifiers => specifiers.filterMap s.exportSpecifier?
  else []

/-- The literal rows of a node. -/
def literalIndexRows (s : Source) (t : Tree) : List (LiteralRow Text) :=
  if t.isOwnExport then
    match t.exportForm with
    | .declaration d =>
      if d.kind.declaresVariables then
        d.declaredVariables.flatMap fun (name, declarator) =>
          match declarator.field? .value with
          | some value => s.literalRows (s.text name) value
          | none => []
      else []
    | _ => []
  else []

/-! ## Definitions -/

/-- The definition of a function or class expression that is exported by default. -/
def defaultDefinition (s : Source) (t : Tree) : List (DefRow Text) :=
  match t.isOwnExport && t.isDefaultExport, t.exportForm with
  | true, .value v =>
    if v.kind.isNameable then
      (v.field? .name).toList.map fun name =>
        ⟨s.text name, if v.kind = .classExpression then "class" else "func", s.span name⟩
    else []
  | _, _ => []

/-- The definition rows of a node. -/
def defRows (s : Source) (t : Tree) : List (DefRow Text) :=
  if t.kind.declaresVariables then
    t.declaredVariables.map fun (name, declarator) =>
      ⟨s.text name, t.declarationKeyword, s.span declarator⟩
  else if t.kind.declaresFunction then
    (t.field? .name).toList.map fun name => ⟨s.text name, "func", s.span name⟩
  else if t.kind.declaresClass then
    (t.field? .name).toList.map fun name => ⟨s.text name, "class", s.span name⟩
  else s.defaultDefinition t

/-! ## Mutations -/

/-- The methods that add to or take from an array in place. -/
def pushMethods : List Text := ["push", "unshift", "splice"]

/-- The methods that set an entry in place. -/
def setMethods : List Text := ["set", "setIn"]

/-- What a call changes and how: the first argument of `Object.assign`, or the object on which a
method is called that changes it. -/
def callMutation? (s : Source) (t : Tree) : Option (Tree × Text) := do
  let callee ← t.unwrapped? .function
  guard (callee.kind = .member)
  let object ← callee.unwrapped? .object
  let property ← callee.field? .property
  guard (property.kind = .propertyIdentifier)
  let method := s.text property
  let isObject := object.kind = .identifier ∧ s.text object = Text.ofString "Object"
  if isObject ∧ method = Text.ofString "assign" then
    let arguments ← t.field? .arguments
    let first ← arguments.expressions.head?
    guard (first.kind ≠ .spread)
    return (first, "call:Object.assign")
  else if pushMethods.contains method then return (object, "call:push")
  else if setMethods.contains method then return (object, "call:set")
  else none

/-- What a node changes and how. -/
def mutation? (s : Source) (t : Tree) : Option (Tree × Text) :=
  match t.kind with
  | .assignment | .augmentedAssignment => (t.field? .left).map (·, "assign")
  | .update => (t.field? .argument).map (·, "update")
  | .call => s.callMutation? t
  | _ => none

/-- The mutation rows of a node. Only what has a static path is reported. -/
def mutationRows (s : Source) (t : Tree) : List (MutationRow Text) :=
  match s.mutation? t with
  | some (target, kind) =>
    (s.accessPath? target).toList.map fun p => ⟨p.root, p.path, kind, s.span t⟩
  | none => []

/-! ## The graph -/

/-- The graph of a module. -/
def moduleGraph (s : Source) (root : Tree) : ModuleGraph Text :=
  let visited := Tree.walk Tree.entersForGraph [root]
  { file := s.file
    imports := visited.flatMap s.importRows
    exports := visited.flatMap s.exportRows
    reexports := visited.flatMap s.reexportRows
    defs := visited.flatMap s.defRows
    mutations := visited.flatMap s.mutationRows
    literals := visited.flatMap s.literalIndexRows }

end Source

end JsxOrigin
