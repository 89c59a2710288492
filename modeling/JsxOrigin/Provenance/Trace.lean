import JsxOrigin.Provenance.Chain
import JsxOrigin.Provenance.Plan

/-!
# Traces

A trace follows an expression to where its value comes from, and records what it finds on a chain.
It goes down a bounded number of levels, it stops as soon as the chain is full, and it expands each
name at most once, so that an initializer that mentions its own name does no harm.
-/

namespace JsxOrigin

/-- The state of a trace: the chain so far and the names that have come up. -/
structure TraceState where
  chain : Chain Origin
  seen : List Text := []

namespace TraceState

/-- Records an origin. -/
def record (st : TraceState) (o : Origin) : TraceState := { st with chain := st.chain.append o }

/-- Marks a name. -/
def mark (st : TraceState) (name : Text) : TraceState :=
  if st.seen.contains name then st else { st with seen := st.seen ++ [name] }

/-- Takes steps in order; `follow` follows an expression. -/
def run (follow : Tree → TraceState → TraceState) (steps : List Step) (st : TraceState) :
    TraceState :=
  steps.foldl
    (fun st step =>
      match step with
      | .record o => st.record o
      | .follow t => follow t st)
    st

end TraceState

/-- The greatest depth that a trace looks at; the expression itself is at depth zero. -/
def Trace.maxDepth : Int := 8

/-- The number of levels that are left at a depth. -/
def Trace.levels (depth : Int) : Nat := (Trace.maxDepth + 1 - depth).toNat

/-- Follows an expression for a number of levels. -/
def Source.follow (s : Source) (bs : Bindings Tree) : Nat → Tree → TraceState → TraceState
  | 0, _, st => st
  | levels + 1, t, st =>
    if st.chain.isFull then st
    else
      let plan := s.plan bs t.unwrap
      let st := st.run (s.follow bs levels) plan.steps
      match plan.once with
      | none => st
      | some (name, steps) =>
        if st.seen.contains name then st else (st.mark name).run (s.follow bs levels) steps

/-- Traces an expression from a depth on. -/
def Source.traceFrom (s : Source) (bs : Bindings Tree) (depth : Int) (t : Tree)
    (st : TraceState) : TraceState :=
  s.follow bs (Trace.levels depth) t st

/-- Traces an expression onto a chain, with no name seen before. -/
def Source.traceOnto (s : Source) (bs : Bindings Tree) (chain : Chain Origin) (t : Tree) :
    Chain Origin :=
  (s.traceFrom bs 0 t { chain }).chain

/-- The chain of an expression. -/
def Source.trace (s : Source) (bs : Bindings Tree) (t : Tree) : Chain Origin :=
  s.traceOnto bs .empty t

end JsxOrigin
