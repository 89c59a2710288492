import JsxOrigin.Names.Reference
import JsxOrigin.Provenance.Candidate

/-!
# Elements

A report for each rendered element of a module: which data its attributes and its direct children
show, and where that data comes from. All expressions of an element are traced onto one chain, so
they share its limit, but each expands names on its own.
-/

namespace JsxOrigin

/-- What is known about one element. -/
structure Element where
  tag : Text
  span : Text
  startLine : Nat
  endLine : Nat
  chain : Chain Origin
  refs : List Reference
  /-- The number of expressions that were traced. -/
  expressionCount : Nat

namespace Element

/-- The places that are worth editing to change what the element shows. -/
def candidates (e : Element) : List (Candidate Text) := Candidate.rank e.chain.findings

/-- The tags of the origins of what the element shows. -/
def tags (e : Element) : List Text := Finding.tags e.chain.findings

/-- The first and the last line. -/
def lines (e : Element) : Text := Text.ofNat e.startLine ++ "-" ++ Text.ofNat e.endLine

/-- Whether an element covers a line. -/
def covers (e : Element) (line : Int) : Bool := e.startLine ≤ line ∧ line ≤ e.endLine

end Element

/-- Whether a node is an element. -/
def Kind.isElement (k : Kind) : Bool := k == .jsxElement || k == .jsxSelfClosing

namespace Tree

/-- The tag with which an element opens; its first named child where no opening tag is found. -/
def openingTag? (element : Tree) : Option Tree :=
  if element.kind = .jsxSelfClosing then some element
  else (element.field? .openTag).or element.namedChildren.head?

/-- The parts of an element that hold expressions: values of attributes, then children. -/
def containers (element : Tree) (opening : Option Tree) : List Tree :=
  let isContainer := fun (t : Tree) => t.kind == .jsxExpression
  let attributes : List Tree :=
    match opening with
    | some tag => tag.namedChildren.filter (·.kind = .jsxAttribute)
    | none => []
  attributes.flatMap (fun a => a.namedChildren.filter isContainer) ++
    (if element.kind = .jsxElement then element.namedChildren.filter isContainer else [])

/-- The expressions that an element shows; spread ones are left out. -/
def dataExpressions (element : Tree) (opening : Option Tree) : List Tree :=
  (element.containers opening).flatMap fun c => c.expressions.filter (·.kind ≠ .spread)

end Tree

namespace Source

/-- The name in a tag; a tag without a name opens a fragment. -/
def tagName (s : Source) (opening : Option Tree) : Text :=
  match opening.bind (·.field? .name) with
  | some name => s.text name
  | none => "Fragment"

/-- The report of an element. -/
def element (s : Source) (bs : Bindings Tree) (t : Tree) : Element :=
  let opening := t.openingTag?
  let expressions := t.dataExpressions opening
  { tag := s.tagName opening
    span := s.span (opening.getD t)
    startLine := s.line t.start
    endLine := s.line t.stop
    chain := expressions.foldl (s.traceOnto bs) .empty
    refs := expressions.flatMap (s.references bs)
    expressionCount := expressions.length }

/-- The reports of the elements of a module. -/
def elements (s : Source) (bs : Bindings Tree) (root : Tree) : List Element :=
  ((Tree.walk (fun _ => true) [root]).filter (·.kind.isElement)).map (s.element bs)

end Source

end JsxOrigin
