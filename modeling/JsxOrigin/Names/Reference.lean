import JsxOrigin.Names.AccessPath
import JsxOrigin.Provenance.Trace

/-!
# Symbol references

Which names of a module, and which static paths below them, an expression reads. Names are followed
into their initializers, each once and no deeper than a trace goes. References are listed in the
order in which they are met, the object of an access before its index and a callee before its
arguments.
-/

namespace JsxOrigin

/-- A name that is read, with the static path below it. -/
structure Reference where
  file : Text
  name : Text
  path : Text
  span : Text
deriving DecidableEq

/-- What an expression reads by itself, and the expressions that are looked at next. If `once` names
something, they are looked at only when that name comes up first. -/
structure Reading where
  refs : List Reference := []
  once : Option Text := none
  next : List Tree := []

namespace Source

/-- What an expression without parentheses around it reads. -/
def reading (s : Source) (bs : Bindings Tree) (t : Tree) : Reading :=
  match t.kind with
  | .identifier =>
    let name := s.text t
    { refs := [⟨s.file, name, [], s.span t⟩]
      once := some name
      next := ((bs.lookup name).bind (·.init)).toList }
  | .member | .subscript =>
    { refs := (s.accessPath? t).toList.map fun p => ⟨s.file, p.root, p.path, s.span t⟩
      next := (t.field? .object).toList ++
        (if t.kind = .subscript then (t.field? .index).toList else []) }
  | .call =>
    let callee := (t.unwrapped? .function).filter fun c =>
      c.kind ≠ .superKeyword ∧ c.kind ≠ .importKeyword
    let arguments :=
      match t.field? .arguments with
      | some list =>
        if list.kind = .arguments then list.expressions.filter (·.kind ≠ .spread) else []
      | none => []
    { next := callee.toList ++ arguments }
  | _ => {}

/-- The cost of a list of expressions. -/
def totalCost (cost : Tree → Nat) : List Tree → Nat
  | [] => 0
  | t :: rest => cost t + totalCost cost rest

/-- The number of looks that an expression takes at most, with a number of levels to go down. -/
def readingCost (s : Source) (bs : Bindings Tree) : Nat → Tree → Nat
  | 0, _ => 1
  | levels + 1, t => 1 + totalCost (s.readingCost bs levels) (s.reading bs t.unwrap).next

/-- The number of looks that the expressions that wait take at most. -/
def waitingCost (s : Source) (bs : Bindings Tree) : List (Tree × Nat) → Nat
  | [] => 0
  | (t, levels) :: rest => s.readingCost bs levels t + s.waitingCost bs rest

theorem waitingCost_append (s : Source) (bs : Bindings Tree) (levels : Nat) (ts : List Tree)
    (waiting : List (Tree × Nat)) :
    s.waitingCost bs (ts.map (·, levels) ++ waiting) =
      totalCost (s.readingCost bs levels) ts + s.waitingCost bs waiting := by
  induction ts with
  | nil => rw [List.map_nil, List.nil_append, totalCost, Nat.zero_add]
  | cons t ts ih => rw [List.map_cons, List.cons_append, waitingCost, ih, totalCost, Nat.add_assoc]

/-- The references of the expressions that wait, each with the levels that are left below it. The
expressions that a reading leads to are looked at before all others. -/
def referencesOf (s : Source) (bs : Bindings Tree) (seen : List Text) :
    List (Tree × Nat) → List Reference
  | [] => []
  | (_, 0) :: waiting => s.referencesOf bs seen waiting
  | (t, levels + 1) :: waiting =>
    let r := s.reading bs t.unwrap
    let fresh := r.once.all (!seen.contains ·)
    r.refs ++
      if fresh then
        s.referencesOf bs (r.once.toList ++ seen) (r.next.map (·, levels) ++ waiting)
      else s.referencesOf bs seen waiting
termination_by waiting => s.waitingCost bs waiting
decreasing_by
  · rw [waitingCost, readingCost]
    omega
  · rw [waitingCost_append, waitingCost, readingCost]
    omega
  · rw [waitingCost, readingCost]
    omega

/-- The references of an expression. -/
def references (s : Source) (bs : Bindings Tree) (t : Tree) : List Reference :=
  s.referencesOf bs [] [(t, Trace.levels 0)]

end Source

end JsxOrigin
