import JsxOrigin.Rendering.Analysis

/-!
# Reports as JSON

The JSON forms of origins, candidates, references and elements, with their members in the order in
which reports print them.
-/

namespace JsxOrigin

/-- An object from names and values. -/
def Json.object (members : List (String × Json)) : Json :=
  .obj (members.map fun (n, v) => (Text.ofString n, v))

/-- An array of strings. -/
def Json.texts (ts : List Text) : Json := .arr (ts.map .str)

/-- A text, or null. -/
def Json.ofText? : Option Text → Json
  | some t => .str t
  | none => .null

/-- A scalar inside a line of text, where a string stands for itself. Other values leave nothing. -/
def Json.inserted : Json → Text
  | .null => "None"
  | .bool b => if b then "True" else "False"
  | .int n => .ofInt n
  | .float x => x.toText
  | .str t => t
  | .arr _ => []
  | .obj _ => []

namespace Finding

/-- The members of a finding besides its kind. One of an unknown kind has no known form. -/
def members? : Finding Json Json → Option (List (String × Json))
  | literal span value => some [("span", span), ("value_kind", value)]
  | ident name span => some [("name", name), ("span", span)]
  | init span => some [("span", span)]
  | imported module name span => some [("source", module), ("imported", name), ("span", span)]
  | member span => some [("span", span)]
  | objectProp key span => some [("key", key), ("span", span)]
  | arrayElem index span => some [("index", index), ("span", span)]
  | call callee callsite calleeSpan definition =>
    some ([("callee", callee), ("callsite", callsite), ("callee_span", calleeSpan)] ++
      definition.toList.map fun d => ("fn_def_span", d))
  | ctor callee span => some [("callee", callee), ("span", span)]
  | op operator span => some [("op", operator), ("span", span)]
  | env key span => some [("key", key), ("span", span)]
  | unknown span => some [("span", span)]
  | foreign .. => none

/-- A finding as JSON. -/
def toJson? (f : Finding Json Json) : Option Json :=
  f.members?.map fun ms => .object (ms ++ [("kind", .str f.kind)])

/-- The names of the members of each kind of finding besides the kind, optional ones apart. -/
def memberNames : List (String × List String) :=
  [("Literal", ["span", "value_kind"]), ("Ident", ["name", "span"]), ("Init", ["span"]),
    ("Import", ["source", "imported", "span"]), ("Member", ["span"]),
    ("ObjectProp", ["key", "span"]), ("ArrayElem", ["index", "span"]),
    ("Call", ["callee", "callsite", "callee_span"]), ("Ctor", ["callee", "span"]),
    ("Op", ["op", "span"]), ("Env", ["key", "span"]), ("Unknown", ["span"])]

/-- The finding of a kind with the values of its members. -/
def ofValues? (kind : String) (values : List Json) (definition : Option Json) :
    Option (Finding Json Json) :=
  match kind, values with
  | "Literal", [span, value] => some (literal span value)
  | "Ident", [name, span] => some (ident name span)
  | "Init", [span] => some (init span)
  | "Import", [module, name, span] => some (imported module name span)
  | "Member", [span] => some (member span)
  | "ObjectProp", [key, span] => some (objectProp key span)
  | "ArrayElem", [index, span] => some (arrayElem index span)
  | "Call", [callee, callsite, calleeSpan] => some (call callee callsite calleeSpan definition)
  | "Ctor", [callee, span] => some (ctor callee span)
  | "Op", [operator, span] => some (op operator span)
  | "Env", [key, span] => some (env key span)
  | "Unknown", [span] => some (unknown span)
  | _, _ => none

/-- Reads a finding. One of a known kind has to have exactly the members of that kind, where the
definition of a call may be null or left out. -/
def ofJson? (j : Json) : Option (Finding Json Json) := do
  let .obj all := j | none
  let kind ← (Table.get? (Text.ofString "kind") all).bind Json.text?
  let members := Table.erase (Text.ofString "kind") all
  match memberNames.find? fun k => Text.ofString k.1 == kind with
  | none => some (foreign kind (Table.get? (Text.ofString "span") members))
  | some (name, names) =>
    let definition := Text.ofString "fn_def_span"
    let isCall := name == "Call"
    let required := if isCall then Table.erase definition members else members
    let values ← names.mapM fun n => Table.get? (Text.ofString n) required
    guard (required.length = names.length)
    ofValues? name values ((Table.get? definition members).filter (!·.isNull))

/-- The candidates of findings that were read, in order and each once. A place that is an array or
an object cannot be told from others, so there are none then. -/
def candidatesRead? (findings : List (Finding Json Json)) : Option (List (Candidate Json)) :=
  let all := findings.flatMap (candidates Json.isPresent)
  if all.all (·.target.isScalar) then
    some (all.eraseDupsBy fun a b => a.reason == b.reason && a.target.same b.target)
  else none

end Finding

/-- An origin as JSON. One of an unknown kind has no known form. -/
def Origin.toJson? (o : Origin) : Option Json := (o.map Json.str Json.int).toJson?

namespace Chain

/-- The findings of a chain as JSON, if all are of known kinds. -/
def toJson? (c : Chain (Finding Json Json)) : Option Json :=
  (c.findings.mapM Finding.toJson?).map .arr

/-- The origins of a chain as JSON, those of unknown kinds left out. -/
def toJson (c : Chain Origin) : Json := .arr (c.findings.filterMap Origin.toJson?)

end Chain

/-- A candidate as JSON. -/
def Candidate.toJson (c : Candidate Json) : Json :=
  .object [("target", c.target), ("reason", .str c.reason.name)]

/-- Candidates that were read, on one line. -/
def Candidate.formatRead (candidates : List (Candidate Json)) : Text :=
  Candidate.format (candidates.map fun c => ⟨c.target.inserted, c.reason⟩)

/-- A candidate of an origin as JSON. -/
def Candidate.textJson (c : Candidate Text) : Json :=
  Candidate.toJson ⟨.str c.target, c.reason⟩

/-- A reference as JSON. -/
def Reference.toJson (r : Reference) : Json :=
  .object [("file", .str r.file), ("local", .str r.name), ("path", .str r.path),
    ("span", .str r.span)]

/-- An element as JSON. -/
def Element.toJson (e : Element) : Json :=
  .object [("tag", .str e.tag), ("span", .str e.span), ("lines", .str e.lines),
    ("candidates", .arr (e.candidates.map (·.textJson))), ("kinds", .texts e.tags),
    ("symbol_refs", .arr (e.refs.map (·.toJson))), ("chain", e.chain.toJson),
    ("truncated", .bool e.chain.truncated)]

end JsxOrigin
