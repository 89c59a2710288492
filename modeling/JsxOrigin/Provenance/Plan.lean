import JsxOrigin.Names.AccessPath
import JsxOrigin.Names.Binding
import JsxOrigin.Provenance.Origin
import JsxOrigin.Text.Blank

/-!
# What an expression contributes to a trace

The plan of an expression says which origins it contributes and which expressions are followed from
it, in order. A name is followed into its initializer or import at most once in a trace, so that
part of its plan is set apart with the name as its guard.
-/

namespace JsxOrigin

/-- A step of a trace: an origin to record, or an expression to follow. -/
inductive Step where
  | record (o : Origin)
  | follow (t : Tree)

/-- The steps for an expression, and those that are taken only when a name comes up first. -/
structure Plan where
  steps : List Step := []
  once : Option (Text × List Step) := none

/-! ## Steps -/

/-- Follows the expression in a field, if there is one. -/
def Step.followField (t : Tree) (f : Field) : List Step := (t.field? f).toList.map .follow

/-- Follows the arguments of a call; spread arguments are left out. -/
def Step.followArguments (arguments : Option Tree) : List Step :=
  match arguments with
  | none => []
  | some list => (list.expressions.filter (·.kind ≠ .spread)).map .follow

/-- The name of the operator of an expression. -/
def Tree.operatorName (t : Tree) : Text :=
  match t.field? .operator with
  | some operator => operator.kind.name
  | none => "?"

/-- Where the function of a name is defined: its body if that is known, else the name. -/
def Bindings.definitionOf (bs : Bindings Tree) (name : Text) : Option Text :=
  (bs.lookup name).map fun b => (b.body.filter (!·.isEmpty)).getD b.definition

namespace Source

/-! ## Environment reads -/

/-- The variable that `process.env.X` or `import.meta.env.X` reads. -/
def environmentKey? (s : Source) (t : Tree) : Option Text := do
  guard (t.kind = .member)
  let key ← t.field? .property
  guard (key.kind = .propertyIdentifier)
  let holder ← t.unwrapped? .object
  guard (holder.kind = .member)
  let env ← holder.field? .property
  guard (s.text env = Text.ofString "env")
  let base ← holder.unwrapped? .object
  let isProcess := base.kind = .identifier ∧ s.text base = Text.ofString "process"
  let isMeta :=
    base.kind = .metaProperty ∧ Text.withoutBlanks (s.text base) = Text.ofString "import.meta"
  guard (isProcess ∨ isMeta)
  return s.text key

/-! ## Expressions -/

/-- The steps that a name is expanded to. -/
def expansion (s : Source) (bs : Bindings Tree) (name : Text) : List Step :=
  match bs.lookup name with
  | none => []
  | some b =>
    let initial : List Step :=
      match b.init with
      | some t => [.record (.init (s.span t)), .follow t]
      | none => []
    let imported : List Step :=
      match b.importOrigin with
      | some i => [.record (.imported i.module i.imported b.definition)]
      | none => []
    initial ++ imported

/-- The plan of a name. -/
def namePlan (s : Source) (bs : Bindings Tree) (t : Tree) : Plan :=
  let name := s.text t
  { steps := [.record (.ident name (s.span t))], once := some (name, s.expansion bs name) }

/-- The steps of a member access. -/
def accessSteps (s : Source) (t : Tree) : List Step :=
  match s.environmentKey? t with
  | some key => [.record (.env key (s.span t))]
  | none =>
    .record (.member (s.span t)) :: Step.followField t .object ++
      (if t.kind = .subscript then Step.followField t .index else [])

/-- The origin of a call. -/
def callOrigin (s : Source) (bs : Bindings Tree) (t : Tree) : Origin :=
  match t.unwrapped? .function with
  | some callee =>
    if callee.kind = .identifier then
      let name := s.text callee
      .call name (s.span t) (s.span callee) (bs.definitionOf name)
    else if callee.kind.isAccess then .call "<member>" (s.span t) (s.span callee) none
    else .call "<expr>" (s.span t) (s.span t) none
  | none => .call "<expr>" (s.span t) (s.span t) none

/-- The steps of a call. A tagged template is not followed. -/
def callSteps (s : Source) (bs : Bindings Tree) (t : Tree) : List Step :=
  let arguments := t.field? .arguments
  if arguments.any (·.kind = .template) then [.record (.unknown (s.span t))]
  else .record (s.callOrigin bs t) :: Step.followArguments arguments

/-- The steps of a constructor call. -/
def constructSteps (s : Source) (t : Tree) : List Step :=
  let callee : Text :=
    match t.unwrapped? .constructor with
    | some c => if c.kind = .identifier then s.text c else "<expr>"
    | none => "<expr>"
  .record (.ctor callee (s.span t)) :: Step.followArguments (t.field? .arguments)

/-- The steps of a template string. -/
def templateSteps (s : Source) (t : Tree) : List Step :=
  .record (.op "template" (s.span t)) ::
    (t.namedChildren.filter (·.kind = .substitution)).flatMap fun c => c.expressions.map .follow

/-- The steps of one property of an object literal; computed keys are left out. -/
def propertySteps (s : Source) (t : Tree) : List Step :=
  match t.kind with
  | .pair =>
    match t.field? .key with
    | some key =>
      match s.propertyKey? key with
      | some name => .record (.objectProp name (s.span key)) :: Step.followField t .value
      | none => []
    | none => []
  | .shorthandProperty => [.record (.objectProp (s.text t) (s.span t)), .follow t]
  | _ => []

/-- The steps of an array literal; spread elements are left out. -/
def arraySteps (s : Source) (t : Tree) : List Step :=
  (t.elements.filter (·.2.kind ≠ .spread)).flatMap fun (position, element) =>
    [.record (.arrayElem position (s.span element)), .follow element]

/-- The plan of an expression without parentheses around it. -/
def plan (s : Source) (bs : Bindings Tree) (t : Tree) : Plan :=
  let span := s.span t
  match t.kind with
  | .string => { steps := [.record (.literal span "string")] }
  | .number => { steps := [.record (.literal span "number")] }
  | .trueLiteral | .falseLiteral | .nullLiteral => { steps := [.record (.literal span "other")] }
  | .identifier | .shorthandProperty | .undefined => s.namePlan bs t
  | .member | .subscript => { steps := s.accessSteps t }
  | .call => { steps := s.callSteps bs t }
  | .construct => { steps := s.constructSteps t }
  | .template => { steps := s.templateSteps t }
  | .binary =>
    { steps := .record (.op ("binary:" ++ t.operatorName) span) ::
        (Step.followField t .left ++ Step.followField t .right) }
  | .unary =>
    { steps := .record (.op ("unary:" ++ t.operatorName) span) :: Step.followField t .argument }
  | .update => { steps := .record (.op "update" span) :: Step.followField t .argument }
  | .ternary =>
    { steps := .record (.op "cond" span) ::
        (Step.followField t .condition ++ Step.followField t .consequence ++
          Step.followField t .alternative) }
  | .object => { steps := t.namedChildren.flatMap s.propertySteps }
  | .array => { steps := s.arraySteps t }
  | _ => { steps := [.record (.unknown span)] }

end Source

end JsxOrigin
