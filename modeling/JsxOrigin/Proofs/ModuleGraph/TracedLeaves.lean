import JsxOrigin.Proofs.ModuleGraph.LiteralPaths
import JsxOrigin.Proofs.Provenance.Visits
import JsxOrigin.Proofs.Syntax.Parentheses

/-!
# Leaves that a trace finds

The literal index and a trace both go down into objects and arrays, the one with a list of values
that wait and only for the strings, the other by recursion and for everything that a value comes
from. **The law** (`Source.leaves_traced`): a trace of a value finds the strings that the index
lists for it, in the same order, if no type annotation hides them and they lie no deeper than a
trace goes.

The plan of an object or an array follows what the index goes into, and the leaves are found below
these values only (`GoesInto`): a pair with a static key is followed by both, and what only the
trace follows, a property that is named like a variable, holds no leaf. Each level of the value is
one level of the trace, so a leaf is found as long as there are levels left (`leafSpans_sublist`).
-/

namespace JsxOrigin

/-- The span of a finding that is a string literal. -/
def Finding.stringSpan? {ι : Type} : Finding Text ι → Option Text
  | literal span value => if value = "string" then some span else none
  | _ => none

namespace Source

open TraceState

variable (s : Source) (bs : Bindings Tree)

/-! ## Leaves within reach -/

/-- The spans of the leaves of a value to which fewer steps lead than there are levels. -/
def leafSpans (levels : Nat) (t : Tree) : List Text :=
  ((s.leaves t).filter (·.1.length < levels)).map fun leaf => s.span leaf.2

/-- The spans of the leaves of what a step follows. -/
def stepSpans (levels : Nat) : Step → List Text
  | .record _ => []
  | .follow t => s.leafSpans levels t

/-- Without type annotations, only parentheses are taken off. -/
theorem bare?_of_unannotated (t : Tree) (bare : ∀ n ∈ t.nodes, n.kind.isTypeWrapper = false) :
    t.bare? = some t.unwrap := by
  rw [bare?_eq, Tree.unwrap_eq, Tree.unwrapFirst_eq, ← Tree.head?_expressions]
  split
  · cases first : t.expressions.head? with
    | none => rfl
    | some e =>
      have child : e ∈ t.children :=
        List.mem_of_mem_filter (List.mem_of_mem_filter (List.mem_of_head? first))
      have smaller := Tree.size_lt_of_mem child
      exact bare?_of_unannotated e fun n mem =>
        bare n (Tree.nodes_subset_of_mem_children child mem)
  · rw [if_neg (Bool.eq_false_iff.mp (bare t t.self_mem_nodes))]
termination_by t.size

/-- A value that is neither a string nor an object nor an array has no leaves, if nothing is around
it. -/
theorem leaves_of_other {t : Tree} (unannotated : t.kind.isTypeWrapper = false)
    (empty : t.kind = .parenthesized → t.expressions = []) (noString : t.kind ≠ .string)
    (noObject : t.kind ≠ .object) (noArray : t.kind ≠ .array) : s.leaves t = [] := by
  have noWrapper : ¬ t.kind.isTypeWrapper = true := Bool.eq_false_iff.mp unannotated
  rw [s.leaves_of_inside noString, inside]
  by_cases parenthesized : t.kind = .parenthesized
  · rw [if_pos parenthesized, empty parenthesized]
    rfl
  · rw [if_neg parenthesized, if_neg noWrapper, if_neg noObject, if_neg noArray]
    rfl

/-- One step further in, one level less. -/
theorem leafSpans_of_inside {t : Tree} (noString : t.kind ≠ .string)
    (single : ∀ v ∈ s.inside t, v.1.length = 1) (levels : Nat) :
    s.leafSpans (levels + 1) t = (s.inside t).flatMap fun v => s.leafSpans levels v.2 := by
  rw [leafSpans, s.leaves_of_inside noString, List.filter_flatMap, List.map_flatMap]
  refine List.flatMap_congr fun v mem => ?_
  rw [List.filter_map, List.map_map, leafSpans]
  congr 1
  refine List.filter_congr fun leaf _ => ?_
  rw [Function.comp_apply, List.length_append, single v mem, decide_eq_decide]
  omega

/-! ## Steps into data -/

/-- A property contributes a value to the index if a trace follows that value. -/
theorem stepSpans_property (levels : Nat) (p : Tree) :
    (s.propertySteps p).flatMap (s.stepSpans levels) =
      (s.keyedValue? p).toList.flatMap fun v => s.leafSpans levels v.2 := by
  unfold propertySteps keyedValue? staticKey?
  split
  case h_1 isPair =>
    rw [if_pos isPair]
    cases p.field? .key with
    | none => rfl
    | some key =>
      cases static : s.propertyKey? key with
      | none => simp [static]
      | some name =>
        cases value : p.field? .value <;> simp [static, stepSpans, Step.followField, value]
  case h_2 isShorthand =>
    have none : s.leaves p = [] := by
      apply s.leaves_of_other <;> simp [isShorthand, Kind.isTypeWrapper]
    rw [if_neg (by rw [isShorthand]; decide)]
    simp [stepSpans, leafSpans, none]
  case h_3 noPair _ =>
    rw [if_neg noPair]
    rfl

/-- **A plan goes into a value**: it sets nothing apart, it follows nodes of the value, and the
leaves of the value are those of what it follows, one level further down. -/
structure GoesInto (t : Tree) (plan : Plan) : Prop where
  once : plan.once = none
  nodes : ∀ u, .follow u ∈ plan.steps → u ∈ t.nodes
  spans : ∀ levels, s.leafSpans (levels + 1) t = plan.steps.flatMap (s.stepSpans levels)

theorem goesInto_object {t : Tree} (isObject : t.kind = .object) : s.GoesInto t (s.plan bs t) := by
  have plan : s.plan bs t = { steps := t.namedChildren.flatMap s.propertySteps } := by
    simp only [plan, isObject]
  have inside : s.inside t = t.namedChildren.filterMap s.keyedValue? := by
    simp [inside, isObject, Kind.isTypeWrapper]
  have single : ∀ v ∈ s.inside t, v.1.length = 1 := by
    intro v mem
    rw [inside] at mem
    obtain ⟨p, -, keyed⟩ := List.mem_filterMap.mp mem
    obtain ⟨name, -, steps, -⟩ := keyedValue?_cases keyed
    rw [steps]
    rfl
  rw [plan]
  refine ⟨rfl, fun u mem => ?_, fun levels => ?_⟩
  · obtain ⟨p, child, follows⟩ := List.mem_flatMap.mp mem
    have isNode := Tree.mem_nodes_of_namedChild t.self_mem_nodes child
    rcases s.follow_mem_propertySteps.mp follows with ⟨-, _, _, -, -, value⟩ | ⟨-, rfl⟩
    · exact Tree.mem_nodes_of_field isNode value
    · exact isNode
  · rw [s.leafSpans_of_inside (by rw [isObject]; decide) single, inside,
      List.filterMap_eq_flatMap_toList, List.flatMap_assoc, List.flatMap_assoc]
    exact congrArg (List.flatMap · _) (funext fun p => (s.stepSpans_property levels p).symm)

theorem goesInto_array {t : Tree} (isArray : t.kind = .array) : s.GoesInto t (s.plan bs t) := by
  have plan : s.plan bs t = { steps := s.arraySteps t } := by simp only [plan, isArray]
  have inside : s.inside t =
      (t.elements.filter (·.2.kind ≠ .spread)).map fun e => ([.position e.1], e.2) := by
    simp [inside, isArray, Kind.isTypeWrapper]
  have single : ∀ v ∈ s.inside t, v.1.length = 1 := by
    intro v mem
    rw [inside] at mem
    obtain ⟨e, -, rfl⟩ := List.mem_map.mp mem
    rfl
  rw [plan]
  refine ⟨rfl, fun u mem => ?_, fun levels => ?_⟩
  · obtain ⟨i, isElement, -⟩ := s.follow_mem_arraySteps.mp mem
    exact Tree.mem_nodes_of_element t.self_mem_nodes isElement
  · rw [s.leafSpans_of_inside (by rw [isArray]; decide) single, inside, List.flatMap_map,
      arraySteps, List.flatMap_assoc]
    refine congrArg (List.flatMap · _) (funext fun e => ?_)
    simp [stepSpans]

/-! ## What a trace finds -/

/-- **Steps that are taken** find the leaves of what they follow, if following single expressions
does. -/
theorem stepSpans_sublist {follow : Tree → TraceState → TraceState} {levels : Nat}
    (grows : ∀ t st, Grows st (follow t st)) (steps : List Step)
    (found : ∀ u, .follow u ∈ steps → ∀ st, (follow u st).chain.isFull = false →
      (s.leafSpans levels u).Sublist ((added st (follow u st)).filterMap Finding.stringSpan?))
    (st : TraceState) (room : (st.run follow steps).chain.isFull = false) :
    (steps.flatMap (s.stepSpans levels)).Sublist
      ((st.added (st.run follow steps)).filterMap Finding.stringSpan?) := by
  induction steps generalizing st with
  | nil => exact List.nil_sublist _
  | cons step steps ih =>
    have rest := ih fun u mem => found u (List.mem_cons_of_mem _ mem)
    rw [List.flatMap_cons]
    cases step with
    | record o =>
      rw [run_record] at room ⊢
      rw [added_trans (grows_record st o) (Grows.run grows steps _), List.filterMap_append]
      exact (List.nil_sublist _).append (rest (st.record o) room)
    | follow u =>
      rw [run_follow] at room ⊢
      have roomAfter := (Grows.run grows steps (follow u st)).not_isFull room
      rw [added_trans (grows u st) (Grows.run grows steps _), List.filterMap_append]
      exact (found u List.mem_cons_self st roomAfter).append (rest (follow u st) room)

/-- **Following a value** finds its leaves in order, down to the last level. -/
theorem leafSpans_sublist (levels : Nat) (t : Tree) (st : TraceState)
    (bare : ∀ n ∈ t.nodes, n.kind.isTypeWrapper = false)
    (room : (s.follow bs levels t st).chain.isFull = false) :
    (s.leafSpans levels t).Sublist
      ((st.added (s.follow bs levels t st)).filterMap Finding.stringSpan?) := by
  induction levels generalizing t st with
  | zero => simp [leafSpans]
  | succ levels ih =>
    have roomBefore := (s.follow_grows bs (levels + 1) t st).not_isFull room
    have bare? := bare?_of_unannotated t bare
    have same : s.leafSpans (levels + 1) t = s.leafSpans (levels + 1) t.unwrap := by
      rw [leafSpans, leafSpans, s.leaves_bare, bare?]
      rfl
    rw [same]
    by_cases isString : t.unwrap.kind = .string
    · have plan : s.plan bs t.unwrap =
          { steps := [.record (.literal (s.span t.unwrap) "string")] } := by
        simp only [plan, isString]
      rw [s.follow_plain bs roomBefore (by rw [plan]), plan, run_record]
      show (s.leafSpans (levels + 1) t.unwrap).Sublist ((st.added (st.record _)).filterMap _)
      rw [added_record roomBefore, leafSpans, s.leaves_of_string isString]
      simp [Finding.stringSpan?]
    by_cases isData : t.unwrap.kind = .object ∨ t.unwrap.kind = .array
    · have goesInto : s.GoesInto t.unwrap (s.plan bs t.unwrap) :=
        isData.elim (s.goesInto_object bs) (s.goesInto_array bs)
      rw [s.follow_plain bs roomBefore goesInto.once] at room ⊢
      rw [goesInto.spans]
      refine s.stepSpans_sublist (s.follow_grows bs levels) _ (fun u follows later => ?_) st room
      have inside : u ∈ t.nodes :=
        Tree.nodes_subset_of_mem t.unwrap_mem_nodes_self (goesInto.nodes u follows)
      exact ih u later fun n mem => bare n (Tree.nodes_subset_of_mem inside mem)
    · obtain ⟨unannotated, empty⟩ := bare_of_bare? t bare?
      rw [not_or] at isData
      rw [leafSpans, s.leaves_of_other unannotated empty isString isData.1 isData.2]
      exact List.nil_sublist _

/-! ## The law -/

/-- **Traces and the literal index agree on data.** In a value without type annotations, let every
string that steps lead to lie no deeper than a trace goes. Then for all bindings, the spans of the
rows of its index are among those of the string literals that a trace of the value adds, in the same
order, whatever names were seen before, if the trace does not fill its chain. -/
theorem leaves_traced {value : Tree} (bare : ∀ n ∈ value.nodes, n.kind.isTypeWrapper = false)
    (shallow : ∀ steps leaf, s.Leads value steps leaf → leaf.kind = .string →
      (steps.length : Int) ≤ Trace.maxDepth)
    (exportName : Text) {st : TraceState}
    (room : (s.traceFrom bs 0 value st).chain.isFull = false) :
    ((s.literalRows exportName value).map (·.span)).Sublist
      ((st.added (s.traceFrom bs 0 value st)).filterMap Finding.stringSpan?) := by
  have inReach : (s.leaves value).filter (·.1.length < Trace.levels 0) = s.leaves value := by
    rw [List.filter_eq_self]
    intro leaf mem
    obtain ⟨leads, isString⟩ := (s.mem_leaves_iff value).mp mem
    have depth := shallow leaf.1 leaf.2 leads isString
    rw [decide_eq_true_eq, Trace.levels]
    omega
  have spans : (s.literalRows exportName value).map (·.span) =
      s.leafSpans (Trace.levels 0) value := by
    rw [leafSpans, inReach, s.literalRows_eq, List.map_map]
    rfl
  rw [spans]
  exact s.leafSpans_sublist bs (Trace.levels 0) value st bare room

/-- The law for an object with a property that is named like a variable, and with a string that lies
eight levels deep: the trace finds that string after the value of the variable. -/
theorem leaves_traced_lastLevel :
    let source : Source :=
      { file := "m.js",
        bytes := (Utf8.encode? "\x7ba,b:[[[[[[[\"x\"]]]]]]]\x7d\n\"y\"").getD [] }
    let a : Tree := { kind := .shorthandProperty, named := true, start := 1, stop := 2,
                      fields := [], children := [] }
    let b : Tree := { a with kind := .propertyIdentifier, start := 3, stop := 4, fields := [.key] }
    let x : Tree := { a with kind := .string, start := 12, stop := 15 }
    let y : Tree := { x with start := 24, stop := 27 }
    let list (inner : Tree) : Tree := { x with kind := .array, children := [inner] }
    let lists := list (list (list (list (list (list (list x))))))
    let pair : Tree :=
      { x with kind := .pair, children := [b, { lists with fields := [.value] }] }
    let value : Tree := { x with kind := .object, start := 0, stop := 23, children := [a, pair] }
    let table : Bindings Tree := [("a", { name := "a", definition := "m.js:1", init := some y })]
    let start : TraceState := { chain := { limit := 20 }, seen := ["c"] }
    let after := source.traceFrom table 0 value start
    (∀ n ∈ value.nodes, n.kind.isTypeWrapper = false) ∧
      (∀ steps leaf, source.Leads value steps leaf → leaf.kind = .string →
        (steps.length : Int) ≤ Trace.maxDepth) ∧
      after.chain.isFull = false ∧
      source.literalRows "data" value =
        [⟨"data", "b[0][0][0][0][0][0][0]", "x", "m.js:1"⟩] ∧
      (start.added after).filterMap Finding.stringSpan? = ["m.js:2", "m.js:1"] ∧
      ((source.literalRows "data" value).map (·.span)).Sublist
        ((start.added after).filterMap Finding.stringSpan?) := by
  intro source a b x y list lists pair value table start after
  have bare : ∀ n ∈ value.nodes, n.kind.isTypeWrapper = false := by decide +kernel
  have depths : ∀ leaf ∈ source.leaves value, (leaf.1.length : Int) ≤ Trace.maxDepth := by
    decide +kernel
  have shallow : ∀ steps leaf, source.Leads value steps leaf → leaf.kind = .string →
      (steps.length : Int) ≤ Trace.maxDepth := fun steps leaf leads isString =>
    depths (steps, leaf) ((source.mem_leaves_iff value).mpr ⟨leads, isString⟩)
  have room : after.chain.isFull = false := by decide +kernel
  exact ⟨bare, shallow, room, by decide +kernel, by decide +kernel,
    source.leaves_traced table bare shallow "data" room⟩

end Source

end JsxOrigin
