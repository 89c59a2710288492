import JsxOrigin.Names.Reference
import JsxOrigin.Proofs.Names.Parentheses
import JsxOrigin.Proofs.Provenance.Growth

/-!
# Traces of trees with parentheses

**The law** (`Source.parens_transparent`): parentheses are transparent everywhere. However many are
added in a module and in and around an expression of it, a trace of the expression records the same
findings, but for where initializers and elements of array literals start, sees the same names, and
refuses a finding exactly if it did before. The member path, the variable of the environment and the
references of the expression stay the same.

Two traces run side by side. The plans of corresponding expressions have corresponding steps
(`Source.plan_alike`), so states that are alike stay alike (`TraceState.Alike.run`,
`Source.follow_alike`).
-/

namespace JsxOrigin

open Correspondence Tree

/-- A finding without the span of an initializer or of an element: where these start depends on the
parentheses around them. -/
def Finding.unplaced : Origin → Origin
  | .init _ => .init []
  | .arrayElem index _ => .arrayElem index []
  | finding => finding

/-- Two tables know the same names, but for parentheses in their initializers. -/
def Bindings.Alike (bs bs' : Bindings Tree) : Prop :=
  ∀ name, Option.Rel Binding.Alike (bs.lookup name) (bs'.lookup name)

/-! ## Steps -/

/-- Corresponding steps. -/
inductive Step.Alike : Step → Step → Prop where
  | record {o o' : Origin} (same : o'.unplaced = o.unplaced) : Step.Alike (.record o) (.record o')
  | follow {t u : Tree} (added : t.ParensAdded u) : Step.Alike (.follow t) (.follow u)

/-- Corresponding plans. -/
structure Plan.Alike (p q : Plan) : Prop where
  steps : List.Forall₂ Step.Alike p.steps q.steps
  once : Option.Rel (fun x y => y.1 = x.1 ∧ List.Forall₂ Step.Alike x.2 y.2) p.once q.once

/-- Recording the same finding before corresponding steps. -/
theorem Step.Alike.cons {o o' : Origin} (same : o' = o) {xs ys : List Step}
    (rest : List.Forall₂ Step.Alike xs ys) :
    List.Forall₂ Step.Alike (.record o :: xs) (.record o' :: ys) :=
  .cons (.record (by rw [same])) rest

theorem Plan.Alike.plain {xs ys : List Step} (steps : List.Forall₂ Step.Alike xs ys) :
    Plan.Alike { steps := xs } { steps := ys } :=
  ⟨steps, .none⟩

theorem Step.followAll_alike {xs ys : List Tree} (added : List.Forall₂ ParensAdded xs ys) :
    List.Forall₂ Step.Alike (xs.map .follow) (ys.map .follow) :=
  List.rel_map (fun _ _ h => .follow h) added

theorem Step.followField_alike {t u : Tree} (inside : t.ParensInside u) (f : Field) :
    List.Forall₂ Step.Alike (Step.followField t f) (Step.followField u f) :=
  Step.followAll_alike (forall₂_toList (inside.field f))

theorem Step.followArguments_alike {x y : Option Tree} (same : Option.Rel ParensInside x y) :
    List.Forall₂ Step.Alike (Step.followArguments x) (Step.followArguments y) := by
  cases same with
  | none => exact .nil
  | some inside => exact Step.followAll_alike inside.unspread

namespace Source

variable (s : Source) {t u : Tree}

/-! ## Environment reads -/

theorem property_of_inside (inside : t.ParensInside u) (isMember : t.kind = .member) :
    Option.Rel ParensInside (t.field? .property) (u.field? .property) := by
  refine inside.readField fun c found => ?_
  rw [isMember]
  exact found

/-- **The variable of the environment** that an expression reads does not depend on parentheses. -/
theorem environmentKey?_of_inside (inside : t.ParensInside u) :
    s.environmentKey? u = s.environmentKey? t := by
  unfold environmentKey?
  rw [inside.kind]
  refine guard_bind_eq fun isMember => ?_
  refine bind_eq (property_of_inside inside isMember) fun key key' sameKey => ?_
  rw [sameKey.kind, s.text_of_inside sameKey]
  refine guard_bind_eq fun _ => ?_
  refine bind_eq (inside.unwrapped .object) fun holder holder' sameHolder => ?_
  rw [sameHolder.kind]
  refine guard_bind_eq fun isMember => ?_
  refine bind_eq (property_of_inside sameHolder isMember) fun env env' sameEnv => ?_
  rw [s.text_of_inside sameEnv]
  refine guard_bind_eq fun _ => ?_
  refine bind_eq (sameHolder.unwrapped .object) fun base base' sameBase => ?_
  rw [sameBase.kind, s.text_of_inside sameBase]

variable {bs bs' : Bindings Tree} (alike : bs.Alike bs')

/-! ## Plans -/

include alike in
theorem definitionOf_alike (name : Text) : bs'.definitionOf name = bs.definitionOf name :=
  map_eq (alike name) fun _ _ h => by rw [h.body, h.definition]

include alike in
theorem expansion_alike (name : Text) :
    List.Forall₂ Step.Alike (s.expansion bs name) (s.expansion bs' name) := by
  have same := alike name
  unfold expansion
  generalize bs.lookup name = x, bs'.lookup name = y at same ⊢
  cases same with
  | none => exact .nil
  | @some b b' same =>
    have init := same.init
    simp only [same.importOrigin, same.definition]
    refine List.rel_append ?_ ?_
    · generalize b.init = x, b'.init = y at init ⊢
      cases init with
      | none => exact .nil
      | some added => exact .cons (.record rfl) (.cons (.follow added) .nil)
    · cases b.importOrigin with
      | none => exact .nil
      | some origin => exact .cons (.record rfl) .nil

theorem accessSteps_alike (inside : t.ParensInside u) :
    List.Forall₂ Step.Alike (s.accessSteps t) (s.accessSteps u) := by
  unfold accessSteps
  rw [s.environmentKey?_of_inside inside, s.span_of_inside inside, inside.kind]
  split
  · exact .cons (.record rfl) .nil
  · refine .cons (.record rfl) (List.rel_append (Step.followField_alike inside .object) ?_)
    split
    · exact Step.followField_alike inside .index
    · exact .nil

include alike in
theorem callOrigin_alike (inside : t.ParensInside u) : s.callOrigin bs' u = s.callOrigin bs t := by
  have callee := inside.unwrapped .function
  unfold callOrigin
  generalize t.unwrapped? .function = x, u.unwrapped? .function = y at callee ⊢
  rw [s.span_of_inside inside]
  cases callee with
  | none => rfl
  | some same =>
    simp only [same.kind, s.text_of_inside same, s.span_of_inside same, definitionOf_alike alike]

include alike in
theorem callSteps_alike (inside : t.ParensInside u) (isCall : t.kind = .call) :
    List.Forall₂ Step.Alike (s.callSteps bs t) (s.callSteps bs' u) := by
  have arguments := inside.readField (f := .arguments) fun c found => by rw [isCall]; exact found
  have origin := s.callOrigin_alike alike inside
  unfold callSteps
  rw [s.span_of_inside inside, origin]
  generalize t.field? .arguments = x, u.field? .arguments = y at arguments ⊢
  have tagged : y.any (·.kind = .template) = x.any (·.kind = .template) := by
    cases arguments with
    | none => rfl
    | some same => simp [same.kind]
  simp only [tagged]
  split
  · exact .cons (.record rfl) .nil
  · exact .cons (.record rfl) (Step.followArguments_alike arguments)

theorem constructSteps_alike (inside : t.ParensInside u) (isConstruct : t.kind = .construct) :
    List.Forall₂ Step.Alike (s.constructSteps t) (s.constructSteps u) := by
  have arguments := inside.readField (f := .arguments) fun c found => by
    rw [isConstruct]; exact found
  have callee := inside.unwrapped .constructor
  unfold constructSteps
  generalize t.unwrapped? .constructor = x, u.unwrapped? .constructor = y at callee ⊢
  refine Step.Alike.cons ?_ (Step.followArguments_alike arguments)
  rw [s.span_of_inside inside]
  cases callee with
  | none => rfl
  | some same => simp only [same.kind, s.text_of_inside same]

theorem templateSteps_alike (inside : t.ParensInside u) (isTemplate : t.kind = .template) :
    List.Forall₂ Step.Alike (s.templateSteps t) (s.templateSteps u) := by
  have substitutions := inside.namedChildrenOfKind .substitution (by decide) fun c same => by
    rw [isTemplate, Kind.reads, same]; rfl
  refine Step.Alike.cons (by rw [s.span_of_inside inside]) ?_
  refine List.rel_flatMap substitutions fun c d h => Step.followAll_alike ?_
  exact h.1.expressions.imp fun _ _ h => h.added

theorem propertySteps_alike (corresponds : Corresponds .object t u) :
    List.Forall₂ Step.Alike (s.propertySteps t) (s.propertySteps u) := by
  by_cases reads : Kind.object.reads t = true
  · have inside := corresponds.inside_of_reads reads
    unfold propertySteps
    rw [inside.kind]
    split
    case h_1 isPair =>
      have keys := inside.readField (f := .key) fun c found => by rw [isPair]; exact found
      generalize t.field? .key = x, u.field? .key = y at keys ⊢
      cases keys with
      | none => exact .nil
      | @some key key' same =>
        have name : s.propertyKey? key' = s.propertyKey? key := by
          simp only [propertyKey?, stringValue, numberKey, same.kind, s.text_of_inside same]
        simp only [name, s.span_of_inside same]
        split
        · exact .cons (.record rfl) (Step.followField_alike inside .value)
        · exact .nil
    case h_2 =>
      rw [s.text_of_inside inside, s.span_of_inside inside]
      exact .cons (.record rfl) (.cons (.follow inside.added) .nil)
    case h_3 => exact .nil
  · -- What is no property gives no steps, with parentheses around it or without.
    have silent : ∀ c : Tree, Kind.object.reads c ≠ true → s.propertySteps c = [] := by
      intro c other
      unfold propertySteps
      split
      case h_1 isPair => simp [Kind.reads, isPair] at other
      case h_2 isShorthand => simp [Kind.reads, isShorthand] at other
      case h_3 => rfl
    have readsNot : Kind.object.reads u ≠ true := by
      rcases corresponds.shape with inside | ⟨-, -, isParens⟩
      · simpa [Kind.reads, inside.kind] using reads
      · simp [Kind.reads, isParens]
    rw [silent t reads, silent u readsNot]
    exact .nil

theorem arraySteps_alike (inside : t.ParensInside u) (isArray : t.kind = .array) :
    List.Forall₂ Step.Alike (s.arraySteps t) (s.arraySteps u) := by
  refine List.rel_flatMap (inside.elements isArray) fun x y h => ?_
  obtain ⟨position, element⟩ := x
  obtain ⟨position', element'⟩ := y
  obtain ⟨rfl, same⟩ := h
  exact .cons (.record rfl) (.cons (.follow same.added) .nil)

theorem operatorName_alike (inside : t.ParensInside u)
    (reads : ∀ c : Tree, c.fields.contains .operator = true → t.kind.reads c = true) :
    u.operatorName = t.operatorName := by
  have operator := inside.readField reads
  unfold Tree.operatorName
  generalize t.field? .operator = x, u.field? .operator = y at operator ⊢
  cases operator with
  | none => rfl
  | some same => simp only [same.kind]

include alike in
/-- **Plans** of corresponding expressions correspond. -/
theorem plan_alike (inside : t.ParensInside u) : Plan.Alike (s.plan bs t) (s.plan bs' u) := by
  have span := s.span_of_inside inside
  have text := s.text_of_inside inside
  unfold plan
  rw [inside.kind, span]
  split
  case h_1 | h_2 | h_3 | h_4 | h_5 => exact .plain (Step.Alike.cons rfl .nil)
  case h_6 | h_7 | h_8 =>
    rw [namePlan, namePlan, span, text]
    exact ⟨Step.Alike.cons rfl .nil, .some ⟨rfl, s.expansion_alike alike _⟩⟩
  case h_9 | h_10 => exact .plain (s.accessSteps_alike inside)
  case h_11 isCall => exact .plain (s.callSteps_alike alike inside isCall)
  case h_12 isConstruct => exact .plain (s.constructSteps_alike inside isConstruct)
  case h_13 isTemplate => exact .plain (s.templateSteps_alike inside isTemplate)
  case h_14 isBinary =>
    have operator := operatorName_alike inside fun c found => by rw [isBinary]; exact found
    rw [operator]
    exact .plain (Step.Alike.cons rfl (List.rel_append (Step.followField_alike inside _)
      (Step.followField_alike inside _)))
  case h_15 isUnary =>
    have operator := operatorName_alike inside fun c found => by rw [isUnary]; exact found
    rw [operator]
    exact .plain (Step.Alike.cons rfl (Step.followField_alike inside _))
  case h_16 => exact .plain (Step.Alike.cons rfl (Step.followField_alike inside _))
  case h_17 =>
    exact .plain (Step.Alike.cons rfl (List.rel_append (List.rel_append
      (Step.followField_alike inside _) (Step.followField_alike inside _))
      (Step.followField_alike inside _)))
  case h_18 isObject =>
    have properties := inside.namedChildren
    rw [isObject] at properties
    exact .plain (List.rel_flatMap properties fun _ _ h => s.propertySteps_alike h)
  case h_19 isArray => exact .plain (s.arraySteps_alike inside isArray)
  case h_20 => exact .plain (Step.Alike.cons rfl .nil)

end Source

/-! ## Traces side by side -/

namespace TraceState

/-- **States of two traces that are alike.** -/
structure Alike (st st' : TraceState) : Prop where
  limit : st'.chain.limit = st.chain.limit
  findings : st'.chain.findings.map Finding.unplaced = st.chain.findings.map Finding.unplaced
  truncated : st'.chain.truncated = st.chain.truncated
  seen : st'.seen = st.seen

namespace Alike

theorem refl (st : TraceState) : st.Alike st := ⟨rfl, rfl, rfl, rfl⟩

variable {st st' : TraceState} (alike : st.Alike st')
include alike

theorem isFull : st'.chain.isFull = st.chain.isFull := by
  have length := congrArg List.length alike.findings
  rw [List.length_map, List.length_map] at length
  rw [Chain.isFull, Chain.isFull, alike.limit, length]

theorem record {o o' : Origin} (same : o'.unplaced = o.unplaced) :
    (st.record o).Alike (st'.record o') := by
  unfold TraceState.record Chain.append
  rw [alike.isFull]
  split
  · exact ⟨alike.limit, alike.findings, rfl, alike.seen⟩
  · refine ⟨alike.limit, ?_, alike.truncated, alike.seen⟩
    simp only [List.map_append, alike.findings, List.map_singleton, same]

theorem mark (name : Text) : (st.mark name).Alike (st'.mark name) := by
  refine ⟨?_, ?_, ?_, seen_mark_congr alike.seen name⟩
  · rw [chain_mark, chain_mark, alike.limit]
  · rw [chain_mark, chain_mark, alike.findings]
  · rw [chain_mark, chain_mark, alike.truncated]

/-- **Taking corresponding steps** leads to states that are alike. -/
theorem run {follow follow' : Tree → TraceState → TraceState}
    (followed : ∀ {t u : Tree} {st st' : TraceState}, t.ParensAdded u → st.Alike st' →
      (follow t st).Alike (follow' u st'))
    {steps steps' : List Step} (same : List.Forall₂ Step.Alike steps steps') :
    (st.run follow steps).Alike (st'.run follow' steps') := by
  induction same generalizing st st' with
  | nil => exact alike
  | @cons step step' _ _ head _ ih =>
    cases head with
    | record same => exact ih (alike.record same)
    | follow added => exact ih (followed added alike)

end Alike

end TraceState

/-- Corresponding readings. -/
structure Reading.Alike (r r' : Reading) : Prop where
  refs : r'.refs = r.refs
  once : r'.once = r.once
  next : List.Forall₂ ParensAdded r.next r'.next

namespace Source

open TraceState

variable (s : Source) {bs bs' : Bindings Tree} (alike : bs.Alike bs')

include alike in
/-- **Following corresponding expressions** leads to states that are alike. -/
theorem follow_alike (levels : Nat) {t u : Tree} {st st' : TraceState} (added : t.ParensAdded u)
    (same : st.Alike st') : (s.follow bs levels t st).Alike (s.follow bs' levels u st') := by
  induction levels generalizing t u st st' with
  | zero => exact same
  | succ levels ih =>
    rw [follow, follow, same.isFull]
    split
    · exact same
    · have plans := s.plan_alike alike added.unwrap
      have once := plans.once
      have stepped := same.run ih plans.steps
      dsimp only
      generalize (s.plan bs t.unwrap).once = x, (s.plan bs' u.unwrap).once = y at once ⊢
      cases once with
      | none => exact stepped
      | @some x y h =>
        obtain ⟨name, more⟩ := x
        obtain ⟨name', more'⟩ := y
        obtain ⟨rfl, later⟩ := h
        dsimp only
        rw [stepped.seen]
        split
        · exact stepped
        · exact (stepped.mark _).run ih later

/-! ## References -/

theorem calleeReads_alike {t u : Tree} (inside : t.ParensInside u) (p : Kind → Prop)
    [DecidablePred p] :
    List.Forall₂ ParensAdded ((t.unwrapped? .function).filter fun c => p c.kind).toList
      ((u.unwrapped? .function).filter fun c => p c.kind).toList := by
  have callee := inside.unwrapped .function
  generalize t.unwrapped? .function = x, u.unwrapped? .function = y at callee ⊢
  cases callee with
  | none => exact .nil
  | some same =>
    rw [Option.filter_some, Option.filter_some, same.kind]
    split
    · exact .cons same.added .nil
    · exact .nil

include alike in
theorem reading_alike {t u : Tree} (inside : t.ParensInside u) :
    (s.reading bs t).Alike (s.reading bs' u) := by
  unfold reading
  rw [inside.kind]
  split
  case h_1 =>
    rw [s.text_of_inside inside, s.span_of_inside inside]
    refine ⟨rfl, rfl, forall₂_toList ?_⟩
    have same := alike (s.text t)
    generalize bs.lookup (s.text t) = x, bs'.lookup (s.text t) = y at same ⊢
    cases same with
    | none => exact .none
    | some same => exact same.init
  case h_2 | h_3 =>
    rw [s.accessPath?_of_added inside.added, s.span_of_inside inside]
    refine ⟨rfl, rfl, List.rel_append (forall₂_toList (inside.field .object)) ?_⟩
    by_cases isSubscript : t.kind = .subscript
    · rw [if_pos isSubscript, if_pos isSubscript]
      exact forall₂_toList (inside.field .index)
    · rw [if_neg isSubscript, if_neg isSubscript]
      exact .nil
  case h_4 isCall =>
    refine ⟨rfl, rfl, ?_⟩
    refine List.rel_append
      (calleeReads_alike inside fun k => k ≠ .superKeyword ∧ k ≠ .importKeyword) ?_
    have arguments := inside.readField (f := .arguments) fun c found => by rw [isCall]; exact found
    generalize t.field? .arguments = x, u.field? .arguments = y at arguments ⊢
    cases arguments with
    | none => exact .nil
    | some same =>
      simp only [same.kind]
      split
      · exact same.unspread
      · exact .nil
  case h_5 => exact ⟨rfl, rfl, .nil⟩

/-- Expressions that wait, with the same number of levels to go down. -/
def SameWait (x y : Tree × Nat) : Prop := x.1.ParensAdded y.1 ∧ y.2 = x.2

include alike in
/-- **The references** of corresponding expressions that wait are the same. -/
theorem referencesOf_alike (seen : List Text) {waiting waiting' : List (Tree × Nat)}
    (same : List.Forall₂ SameWait waiting waiting') :
    s.referencesOf bs' seen waiting' = s.referencesOf bs seen waiting := by
  fun_induction s.referencesOf bs seen waiting generalizing waiting' with
  | case1 seen =>
    cases same
    rw [referencesOf]
  | case2 seen t waiting ih =>
    cases same with
    | @cons _ y _ _ head rest =>
      obtain ⟨u, levels⟩ := y
      obtain ⟨-, rfl⟩ := head
      rw [referencesOf]
      exact ih rest
  | case3 seen t levels waiting r fresh entered =>
    rename_i passed
    cases same with
    | @cons _ y _ waiting' head rest =>
      obtain ⟨u, levels'⟩ := y
      obtain ⟨added, rfl⟩ := head
      have here : r.Alike (s.reading bs' u.unwrap) := s.reading_alike alike added.unwrap
      have later : List.Forall₂ SameWait (r.next.map (·, levels) ++ waiting)
          ((s.reading bs' u.unwrap).next.map (·, levels) ++ waiting') :=
        List.rel_append (List.rel_map (fun _ _ added => ⟨added, rfl⟩) here.next) rest
      rw [referencesOf, here.refs, here.once, entered later, passed rest]

/-! ## The law -/

/-- **Parentheses are transparent.** Let parentheses be added inside a module, and inside and around
an expression. A trace of the expression from any depth and in any state then records the same
findings, but for the spans of initializers and elements, refuses a finding exactly if it did
before, and sees the same names. The expression has the same member path, reads the same variable of
the environment, and has the same references. -/
theorem parens_transparent {root root' t u : Tree} (inModule : root.ParensInside root')
    (added : t.ParensAdded u) :
    (∀ (depth : Int) (st : TraceState),
      (s.traceFrom (s.bindings root) depth t st).Alike
        (s.traceFrom (s.bindings root') depth u st)) ∧
    s.accessPath? u = s.accessPath? t ∧
    s.environmentKey? u.unwrap = s.environmentKey? t.unwrap ∧
    s.references (s.bindings root') u = s.references (s.bindings root) t := by
  have alike : (s.bindings root).Alike (s.bindings root') := s.lookup_bindings_alike inModule
  refine ⟨fun depth st => ?_, ?_, ?_, ?_⟩
  · exact s.follow_alike alike _ added (TraceState.Alike.refl st)
  · exact s.accessPath?_of_added added
  · exact s.environmentKey?_of_inside added.unwrap
  · exact s.referencesOf_alike alike [] (.cons ⟨added, rfl⟩ .nil)

/-- The law for `x`, declared as `[y]`, with parentheses around both: the list starts on the second
line and the parentheses around it on the first one, which shows in the span of the initializer. -/
theorem parens_transparent_initializer :
    let source : Source :=
      { file := "m.js",
        bytes := [0x78, 0x3D, 0x28, 0x0A, 0x5B, 0x79, 0x5D, 0x29, 0x3B, 0x28, 0x78, 0x29] }
    let leaf (kind : Kind) (start stop : Nat) (fields : List Field) : Tree :=
      { kind, named := true, start, stop, fields, children := [] }
    let list : Tree := { leaf .array 4 7 [.value] with children := [leaf .identifier 5 6 []] }
    let listInParens : Tree := { leaf .parenthesized 2 8 [.value] with children := [list] }
    let root (value : Tree) : Tree :=
      { leaf .program 0 12 [] with
        children := [{ leaf .declarator 0 8 [] with
          children := [leaf .identifier 0 1 [.name], value] }] }
    let name := leaf .identifier 10 11 []
    let nameInParens : Tree :=
      { leaf .parenthesized 9 12 [] with children := [leaf .comment 10 10 [], name] }
    let before := source.traceFrom (source.bindings (root list)) 0 name { chain := .empty }
    let after :=
      source.traceFrom (source.bindings (root listInParens)) 0 nameInParens { chain := .empty }
    (root list).ParensInside (root listInParens) ∧ name.ParensAdded nameInParens ∧
      before.chain.findings = [.ident "x" "m.js:2", .init "m.js:2", .arrayElem 0 "m.js:2",
        .ident "y" "m.js:2"] ∧
      after.chain.findings = [.ident "x" "m.js:2", .init "m.js:1", .arrayElem 0 "m.js:2",
        .ident "y" "m.js:2"] ∧
      before.Alike after ∧
      source.references (source.bindings (root listInParens)) nameInParens =
        source.references (source.bindings (root list)) name := by
  intro source leaf list listInParens root name nameInParens before after
  have inList : AddsParens .array [leaf .identifier 5 6 []] [leaf .identifier 5 6 []] :=
    .keep (.nil _) (.nil _)
  have aroundList : list.Parens listInParens :=
    @Parens.add _ _ 2 8 [.value] [] [] (Parens.refl list) rfl (by decide) nofun nofun
  have inModule : (root list).ParensInside (root listInParens) := by
    refine ⟨rfl, rfl, rfl, rfl, .keep ?_ (.nil _)⟩
    exact .keep (.nil _) (.wrap rfl inList aroundList rfl (.nil _))
  have added : name.ParensAdded nameInParens := by
    refine ⟨name, ⟨rfl, rfl, rfl, rfl, .nil _⟩, ?_⟩
    refine @Parens.add _ _ 9 12 [] [leaf .comment 10 10 []] [] (Parens.refl name) rfl (by decide)
      ?_ nofun
    intro a mem
    rw [List.mem_singleton.mp mem]
    exact .inr ⟨rfl, by decide⟩
  have law := source.parens_transparent inModule added
  exact ⟨inModule, added, by decide +kernel, by decide +kernel, law.1 0 _, law.2.2.2⟩

end Source

end JsxOrigin
