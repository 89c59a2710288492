import JsxOrigin.Text.Basic

/-!
# Origins

An origin is one finding about where a value comes from: a literal, a name, the initializer of a
name, and so on. Each kind of finding has a name for reports, a tag for summaries, and a span.

A trace records origins, in which names and spans are texts and positions are integers. A finding
that is read from a report can hold other values in their place, so both types are parameters.
-/

namespace JsxOrigin

/-- One finding about where a value comes from, with names and spans of one type and positions of
another. -/
inductive Finding (τ ι : Type) where
  /-- A literal; `value` is `string`, `number` or `other`. -/
  | literal (span value : τ)
  /-- A name that is read. -/
  | ident (name span : τ)
  /-- The initializer of a name. -/
  | init (span : τ)
  /-- An imported name, with the module as the import statement writes it. -/
  | imported (module name span : τ)
  /-- A property that is read off an object. -/
  | member (span : τ)
  /-- A property of an object literal. -/
  | objectProp (key span : τ)
  /-- An element of an array literal. -/
  | arrayElem (index : ι) (span : τ)
  /-- A call, with the place of the callee and of its definition if that is known. -/
  | call (callee callsite calleeSpan : τ) (definition : Option τ)
  /-- A call of a constructor. -/
  | ctor (callee span : τ)
  /-- An operator. -/
  | op (operator span : τ)
  /-- A variable of the environment. -/
  | env (key span : τ)
  /-- An expression that is not followed. -/
  | unknown (span : τ)
  /-- A finding of a kind that this library does not know. -/
  | foreign (kind : Text) (span : Option τ)
deriving DecidableEq

/-- What a trace records. -/
abbrev Origin := Finding Text Int

namespace Finding

variable {τ ι σ κ : Type}

/-- The name of the kind of a finding. -/
def kind : Finding τ ι → Text
  | literal .. => "Literal"
  | ident .. => "Ident"
  | init .. => "Init"
  | imported .. => "Import"
  | member .. => "Member"
  | objectProp .. => "ObjectProp"
  | arrayElem .. => "ArrayElem"
  | call .. => "Call"
  | ctor .. => "Ctor"
  | op .. => "Op"
  | env .. => "Env"
  | unknown .. => "Unknown"
  | foreign kind _ => kind

/-- The tag of the kind of a finding in summaries. -/
def tag? : Finding τ ι → Option Text
  | literal .. => some "literal"
  | ident .. => some "ident"
  | init .. => some "init"
  | imported .. => some "import"
  | member .. => some "member"
  | objectProp .. => some "object"
  | arrayElem .. => some "array"
  | call .. => some "call"
  | ctor .. => some "ctor"
  | op .. => some "op"
  | env .. => some "env"
  | unknown .. => some "unknown"
  | foreign .. => none

/-- Where a finding is; a call is at its call site. -/
def span? : Finding τ ι → Option τ
  | literal span _ | ident _ span | init span | imported _ _ span | member span
  | objectProp _ span | arrayElem _ span | call _ span _ _ | ctor _ span | op _ span
  | env _ span | unknown span => some span
  | foreign _ span => span

/-- A finding with its texts and its positions replaced. -/
def map (f : τ → σ) (g : ι → κ) : Finding τ ι → Finding σ κ
  | literal span value => literal (f span) (f value)
  | ident name span => ident (f name) (f span)
  | init span => init (f span)
  | imported module name span => imported (f module) (f name) (f span)
  | member span => member (f span)
  | objectProp key span => objectProp (f key) (f span)
  | arrayElem index span => arrayElem (g index) (f span)
  | call callee callsite calleeSpan definition =>
    call (f callee) (f callsite) (f calleeSpan) (definition.map f)
  | ctor callee span => ctor (f callee) (f span)
  | op operator span => op (f operator) (f span)
  | env key span => env (f key) (f span)
  | unknown span => unknown (f span)
  | foreign kind span => foreign kind (span.map f)

/-- The tags of the findings in a list, in order and each once. -/
def tags (findings : List (Finding τ ι)) : List Text :=
  Text.sortedSet (findings.filterMap tag?)

end Finding

end JsxOrigin
