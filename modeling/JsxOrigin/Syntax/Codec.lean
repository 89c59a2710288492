import JsxOrigin.Json.Basic
import JsxOrigin.Number.Shortest
import JsxOrigin.Syntax.Preorder
import JsxOrigin.Syntax.Source

/-!
# Trees as JSON

A tree is read from an array of nodes in document order. A node is an array with the name of its
kind, one or zero for named or not, the offsets of its start and its end, the number of its
children, and the fields in which it is found.
-/

namespace JsxOrigin

/-- A natural number, if the value is one. -/
def Json.nat? : Json → Option Nat
  | .int (.ofNat n) => some n
  | _ => none

/-- Reads a node. Fields that no analysis asks for are left out. -/
def NodeRecord.ofJson? : Json → Option NodeRecord
  | .arr (.str kind :: named :: start :: stop :: count :: fields) => do
    let named ← named.whole?
    let start ← start.nat?
    let stop ← stop.nat?
    let count ← count.nat?
    let fields := (fields.filterMap Json.text?).filterMap Field.ofName?
    return { kind := .ofName kind, named := named ≠ 0, start, stop, count, fields }
  | _ => none

/-- Reads a tree. -/
def Tree.ofJson? (j : Json) : Option Tree := do
  let rows ← j.items?
  let records ← rows.mapM NodeRecord.ofJson?
  (Tree.ofRecords records).head?

/-- The span of a node in a file, from the point where it starts: an array with the line, counted
from zero, in front. Line zero stands for anything else. -/
def Source.spanAtPoint (file : Text) (point : Json) : Text :=
  let line : Text :=
    match point with
    | .arr (first :: _) =>
      match first.whole?, first with
      | some n, _ => Text.ofInt (n + 1)
      | none, .float x => x.succ.toText
      | none, _ => "0"
    | _ => "0"
  file ++ ":" ++ line

end JsxOrigin
