import JsxOrigin.Proofs.Provenance.Dependence
import JsxOrigin.Proofs.Provenance.Feeding

/-!
# The visits of a trace

A trace visits expressions one after another. A visit happens while the chain has room, and takes
the steps of a plan: all of them, or, at a name that has come up before, those that are not set
apart (`Source.taken`). `Source.visits` lists the visits of a trace in order, each with the levels
left below it and the state in which it began.

What holds of a visit follows the recursion of a trace, which is packaged once
(`Source.visits_induct`). The visits account for all that a trace does:

* **its findings**: a finding that is added was recorded by a visit (`exists_visit_of_added`), and
  what a visit records is added if the chain does not fill up (`mem_added_of_visit`);
* **its names**: a name is marked exactly when a visit expands it (`seen_follow`), so a name that
  has come up before a visit was expanded by an earlier one, and no name is expanded twice
  (`InOrder.exists_of_seen`, `InOrder.eq_of_expanded`).
-/

namespace JsxOrigin

/-- A visit of a trace to an expression. -/
structure Visit where
  expression : Tree
  /-- The number of levels that are left below the expression. -/
  below : Nat
  /-- The state in which the visit begins. -/
  state : TraceState

/-- The visits of steps, where `visits` gives those of an expression that is followed. -/
def TraceState.visitsOf (follow : Tree → TraceState → TraceState)
    (visits : Tree → TraceState → List Visit) : List Step → TraceState → List Visit
  | [], _ => []
  | .record o :: steps, st => visitsOf follow visits steps (st.record o)
  | .follow t :: steps, st => visits t st ++ visitsOf follow visits steps (follow t st)

/-- A new name can as well be marked before something is recorded. -/
theorem TraceState.mark_record {st : TraceState} {name : Text}
    (fresh : ¬ st.seen.contains name = true) (o : Origin) :
    (st.record o).mark name = { st with seen := st.seen ++ [name] }.record o :=
  if_neg fresh

namespace Source

open TraceState

variable (s : Source) (bs : Bindings Tree)

/-- The name that is expanded at an expression: one that has not come up before. -/
def expanded? (t : Tree) (st : TraceState) : Option Text :=
  if t.unwrap.kind.isName && !st.seen.contains (s.text t.unwrap) then some (s.text t.unwrap)
  else none

/-- The steps that are taken at an expression. -/
def taken (t : Tree) (st : TraceState) : List Step :=
  if t.unwrap.kind.isName && st.seen.contains (s.text t.unwrap) then (s.plan bs t.unwrap).steps
  else (s.plan bs t.unwrap).all

/-- The state in which the steps at an expression begin. -/
def entered (t : Tree) (st : TraceState) : TraceState :=
  { st with seen := st.seen ++ (s.expanded? t st).toList }

/-- **The visits of a trace**, in order. -/
def visits : Nat → Tree → TraceState → List Visit
  | 0, _, _ => []
  | levels + 1, t, st =>
    if st.chain.isFull then []
    else
      ⟨t, levels, st⟩ ::
        visitsOf (s.follow bs levels) (visits levels) (s.taken bs t st) (s.entered t st)

/-- What a visit expands. -/
def expandedBy? (v : Visit) : Option Text := s.expanded? v.expression v.state

variable {levels : Nat} {t y : Tree} {st : TraceState} {o : Origin} {v : Visit}

/-! ## Steps -/

theorem once_of_not_isName {x : Tree} (noName : ¬ x.kind.isName = true) :
    (s.plan bs x).once = none := by
  unfold plan
  split
  case h_6 kind | h_7 kind | h_8 kind => exact absurd (by rw [kind]; rfl) noName
  all_goals rfl

/-- **What is expanded** at an expression is its name, if it has not come up before. -/
theorem expanded?_eq_some {name : Text} : s.expanded? t st = some name ↔
    t.unwrap.kind.isName = true ∧ s.text t.unwrap = name ∧ name ∉ st.seen := by
  unfold expanded?
  constructor
  · intro expanded
    split at expanded
    · rename_i fresh
      cases expanded
      rw [Bool.and_eq_true, Bool.not_eq_true', List.contains_eq_mem,
        decide_eq_false_iff_not] at fresh
      exact ⟨fresh.1, rfl, fresh.2⟩
    · cases expanded
  · rintro ⟨isName, rfl, fresh⟩
    exact if_pos (by simp [isName, fresh])

theorem entered_of_not_expanded (nothing : s.expanded? t st = none) : s.entered t st = st := by
  rw [entered, nothing, Option.toList_none, List.append_nil]

/-- A name that has come up before is recorded, and no more. -/
theorem taken_of_known (isName : t.unwrap.kind.isName = true)
    (known : s.text t.unwrap ∈ st.seen) :
    s.taken bs t st = [.record (.ident (s.text t.unwrap) (s.span t.unwrap))] := by
  rw [taken, if_pos (by simp [isName, known]), s.plan_of_isName bs isName]
  rfl

/-- All steps of a plan are taken, but for those of a name that has come up before. -/
theorem taken_of_fresh (fresh : t.unwrap.kind.isName = true → s.text t.unwrap ∉ st.seen) :
    s.taken bs t st = (s.plan bs t.unwrap).all := by
  refine if_neg fun known => ?_
  rw [Bool.and_eq_true, List.contains_iff_mem] at known
  exact fresh known.1 known.2

/-- **Following an expression** takes the steps of its visit. -/
theorem follow_eq_run (room : st.chain.isFull = false) (levels : Nat) (t : Tree) :
    s.follow bs (levels + 1) t st =
      (s.entered t st).run (s.follow bs levels) (s.taken bs t st) := by
  by_cases isName : t.unwrap.kind.isName = true
  · have plan := s.plan_of_isName bs isName
    have once : (s.plan bs t.unwrap).once =
        some (s.text t.unwrap, s.expansion bs (s.text t.unwrap)) := by rw [plan]; rfl
    rw [s.follow_name bs room once]
    by_cases known : s.text t.unwrap ∈ st.seen
    · have nothing : s.expanded? t st = none := if_neg (by simp [known])
      rw [s.entered_of_not_expanded nothing, s.taken_of_known bs isName known]
      exact if_pos (List.contains_iff_mem.mpr known)
    · have name := s.expanded?_eq_some.mpr ⟨isName, rfl, known⟩
      have fresh : ¬ st.seen.contains (s.text t.unwrap) = true := by
        rwa [List.contains_iff_mem]
      rw [entered, name, s.taken_of_fresh bs fun _ => known, plan, all_namePlan, run_record]
      dsimp only
      rw [if_neg fresh, mark_record fresh]
      rfl
  · have plain := s.once_of_not_isName bs isName
    have nothing : s.expanded? t st = none := if_neg (by simp [isName])
    rw [s.follow_plain bs room plain, s.entered_of_not_expanded nothing,
      s.taken_of_fresh bs fun name => absurd name isName, Plan.all, plain]
    exact congrArg (st.run _) (List.append_nil _).symm

/-- A step that is taken at an expression is a step of its plan. -/
theorem mem_plan_of_taken {step : Step} (mem : step ∈ s.taken bs t st) :
    step ∈ (s.plan bs t.unwrap).all := by
  unfold taken at mem
  split at mem
  · exact List.mem_append_left _ mem
  · exact mem

/-- Something is followed at a name only if the name is expanded. -/
theorem expanded_of_follow_mem_taken (mem : .follow y ∈ s.taken bs t st)
    (isName : t.unwrap.kind.isName = true) : s.expanded? t st = some (s.text t.unwrap) := by
  refine s.expanded?_eq_some.mpr ⟨isName, rfl, ?_⟩
  intro known
  rw [s.taken_of_known bs isName known] at mem
  simp at mem

end Source

/-! ## The recursion of a trace -/

namespace TraceState

variable {follow : Tree → TraceState → TraceState} {visits : Tree → TraceState → List Visit}
  {v : Visit}

theorem run_append (steps more : List Step) (st : TraceState) :
    st.run follow (steps ++ more) = (st.run follow steps).run follow more :=
  List.foldl_append

/-- The visits of steps are those of the expressions that they follow, each in the state that the
steps before lead to. -/
theorem mem_visitsOf {steps : List Step} {st : TraceState} :
    v ∈ visitsOf follow visits steps st ↔ ∃ before u after,
      steps = before ++ .follow u :: after ∧ v ∈ visits u (st.run follow before) := by
  induction steps generalizing st with
  | nil => simp [visitsOf]
  | cons step steps ih =>
    cases step with
    | record o =>
      rw [visitsOf, ih]
      constructor
      · rintro ⟨before, u, after, rfl, mem⟩
        exact ⟨.record o :: before, u, after, rfl, mem⟩
      · rintro ⟨_ | ⟨first, before⟩, u, after, split, mem⟩
        · cases split
        · cases split
          exact ⟨before, u, after, rfl, mem⟩
    | follow t =>
      rw [visitsOf, List.mem_append, ih]
      constructor
      · rintro (mem | ⟨before, u, after, rfl, mem⟩)
        · exact ⟨[], t, steps, rfl, mem⟩
        · exact ⟨.follow t :: before, u, after, rfl, mem⟩
      · rintro ⟨_ | ⟨first, before⟩, u, after, split, mem⟩
        · cases split
          exact .inl mem
        · cases split
          exact .inr ⟨before, u, after, rfl, mem⟩

end TraceState

namespace Source

open TraceState

variable (s : Source) (bs : Bindings Tree)
variable {levels : Nat} {t y : Tree} {st : TraceState} {o : Origin} {v : Visit}

theorem visits_of_room (room : st.chain.isFull = false) (levels : Nat) (t : Tree) :
    s.visits bs (levels + 1) t st = ⟨t, levels, st⟩ ::
      visitsOf (s.follow bs levels) (s.visits bs levels) (s.taken bs t st) (s.entered t st) := by
  rw [visits, if_neg (by rw [room]; exact Bool.false_ne_true)]

theorem mem_visits_self (room : st.chain.isFull = false) (levels : Nat) (t : Tree) :
    ⟨t, levels, st⟩ ∈ s.visits bs (levels + 1) t st := by
  rw [s.visits_of_room bs room]
  exact List.mem_cons_self

/-- The visits below an expression that is followed are visits. -/
theorem mem_visits_of_step (room : st.chain.isFull = false) {before after : List Step} {u : Tree}
    (steps : s.taken bs t st = before ++ .follow u :: after)
    (mem : v ∈ s.visits bs levels u ((s.entered t st).run (s.follow bs levels) before)) :
    v ∈ s.visits bs (levels + 1) t st := by
  rw [s.visits_of_room bs room]
  exact List.mem_cons_of_mem _ (mem_visitsOf.mpr ⟨before, u, after, steps, mem⟩)

/-- **Induction over the visits of a trace**: the visit to the expression itself, and the visits
below an expression that is followed there. -/
theorem visits_induct {motive : Nat → Tree → TraceState → Visit → Prop}
    (here : ∀ levels t st, st.chain.isFull = false → motive (levels + 1) t st ⟨t, levels, st⟩)
    (below : ∀ levels t st before u after v, st.chain.isFull = false →
      s.taken bs t st = before ++ .follow u :: after →
      v ∈ s.visits bs levels u ((s.entered t st).run (s.follow bs levels) before) →
      motive levels u ((s.entered t st).run (s.follow bs levels) before) v →
      motive (levels + 1) t st v)
    (mem : v ∈ s.visits bs levels t st) : motive levels t st v := by
  induction levels generalizing t st with
  | zero => cases mem
  | succ levels ih =>
    cases full : st.chain.isFull with
    | true =>
      rw [visits, if_pos full] at mem
      cases mem
    | false =>
      rw [s.visits_of_room bs full] at mem
      rcases List.mem_cons.mp mem with rfl | mem
      · exact here levels t st full
      · obtain ⟨before, u, after, steps, mem⟩ := mem_visitsOf.mp mem
        exact below levels t st before u after v full steps mem (ih mem)

/-- The visits that begin with a visit of a trace are visits of that trace. -/
theorem visits_subset (mem : v ∈ s.visits bs levels t st) :
    s.visits bs (v.below + 1) v.expression v.state ⊆ s.visits bs levels t st := by
  refine s.visits_induct bs (motive := fun levels t st v =>
    s.visits bs (v.below + 1) v.expression v.state ⊆ s.visits bs levels t st) ?_ ?_ mem
  · intro levels t st _
    exact List.Subset.refl _
  · intro levels t st before u after v room steps _ ih w inside
    exact s.mem_visits_of_step bs room steps (ih inside)

theorem room_of_mem_visits (mem : v ∈ s.visits bs levels t st) : v.state.chain.isFull = false :=
  s.visits_induct bs (motive := fun _ _ _ v => v.state.chain.isFull = false)
    (fun _ _ _ room => room) (fun _ _ _ _ _ _ _ _ _ _ ih => ih) mem

/-! ## Findings -/

/-- The state of a visit lies between the states before and after the trace. -/
theorem grows_of_mem_visits (mem : v ∈ s.visits bs levels t st) :
    st.Grows v.state ∧
      (s.follow bs (v.below + 1) v.expression v.state).Grows (s.follow bs levels t st) := by
  refine s.visits_induct bs (motive := fun levels t st v => st.Grows v.state ∧
    (s.follow bs (v.below + 1) v.expression v.state).Grows (s.follow bs levels t st)) ?_ ?_ mem
  · intro levels t st _
    exact ⟨Grows.refl st, Grows.refl _⟩
  · rintro levels t st before u after v room steps - ⟨first, last⟩
    have grows := s.follow_grows bs levels
    have enters : st.Grows (s.entered t st) := ⟨rfl, List.prefix_refl _⟩
    refine ⟨enters.trans ((Grows.run grows before _).trans first), ?_⟩
    rw [s.follow_eq_run bs room, steps, run_append, run_follow]
    exact last.trans (Grows.run grows after _)

end Source

namespace TraceState

variable {follow : Tree → TraceState → TraceState} {visits : Tree → TraceState → List Visit}
  {o : Origin} {st : TraceState}

/-- What steps add was recorded by one of them, or added where an expression was followed. -/
theorem added_run_cases (grows : ∀ t st, Grows st (follow t st)) (steps : List Step)
    (mem : o ∈ st.added (st.run follow steps)) :
    .record o ∈ steps ∨ ∃ before u after, steps = before ++ .follow u :: after ∧
      o ∈ (st.run follow before).added (follow u (st.run follow before)) := by
  induction steps generalizing st with
  | nil => simp [added, run] at mem
  | cons step steps ih =>
    cases step with
    | record o' =>
      rw [run_record, added_trans (grows_record st o') (Grows.run grows steps _)] at mem
      rcases List.mem_append.mp mem with first | later
      · left
        cases full : st.chain.isFull with
        | true => simp [added, Chain.append_of_isFull full] at first
        | false =>
          rw [added_record full, List.mem_singleton] at first
          rw [first]
          exact List.mem_cons_self
      · rcases ih later with recorded | ⟨before, u, after, rfl, inside⟩
        · exact .inl (List.mem_cons_of_mem _ recorded)
        · exact .inr ⟨.record o' :: before, u, after, rfl, inside⟩
    | follow t =>
      rw [run_follow, added_trans (grows t st) (Grows.run grows steps _)] at mem
      rcases List.mem_append.mp mem with first | later
      · exact .inr ⟨[], t, steps, rfl, first⟩
      · rcases ih later with recorded | ⟨before, u, after, rfl, inside⟩
        · exact .inl (List.mem_cons_of_mem _ recorded)
        · exact .inr ⟨.follow t :: before, u, after, rfl, inside⟩

/-- What steps record is added, if the chain does not fill up. -/
theorem mem_added_run (grows : ∀ t st, Grows st (follow t st)) {steps : List Step}
    (mem : .record o ∈ steps) (room : (st.run follow steps).chain.isFull = false) :
    o ∈ st.added (st.run follow steps) := by
  obtain ⟨before, after, rfl⟩ := List.append_of_mem mem
  rw [run_append, run_record] at room ⊢
  have first := Grows.run grows before st
  have step := grows_record (st.run follow before) o
  have last := Grows.run grows after ((st.run follow before).record o)
  rw [added_trans first (step.trans last), added_trans step last,
    added_record ((step.trans last).not_isFull room)]
  exact List.mem_append_right _ (List.mem_append_left _ List.mem_cons_self)

end TraceState

namespace Source

open TraceState

variable (s : Source) (bs : Bindings Tree)
variable {levels : Nat} {t y : Tree} {st : TraceState} {o : Origin} {v : Visit}

theorem added_entered (t : Tree) (st st' : TraceState) :
    (s.entered t st).added st' = st.added st' := rfl

/-- **A finding that is added** was recorded by a visit. -/
theorem exists_visit_of_added (mem : o ∈ st.added (s.follow bs levels t st)) :
    ∃ v ∈ s.visits bs levels t st, .record o ∈ s.taken bs v.expression v.state := by
  induction levels generalizing t st with
  | zero => simp [added, follow] at mem
  | succ levels ih =>
    cases full : st.chain.isFull with
    | true =>
      rw [s.follow_of_isFull bs full] at mem
      simp [added] at mem
    | false =>
      rw [s.follow_eq_run bs full, ← s.added_entered t] at mem
      rcases added_run_cases (s.follow_grows bs levels) _ mem with recorded | inside
      · exact ⟨⟨t, levels, st⟩, s.mem_visits_self bs full levels t, recorded⟩
      · obtain ⟨before, u, after, steps, mem⟩ := inside
        obtain ⟨v, visited, recorded⟩ := ih mem
        exact ⟨v, s.mem_visits_of_step bs full steps visited, recorded⟩

/-- **What a visit records is added**, if the chain does not fill up. -/
theorem mem_added_of_visit (visited : v ∈ s.visits bs levels t st)
    (recorded : .record o ∈ s.taken bs v.expression v.state)
    (room : (s.follow bs levels t st).chain.isFull = false) :
    o ∈ st.added (s.follow bs levels t st) := by
  obtain ⟨first, last⟩ := s.grows_of_mem_visits bs visited
  have here := s.follow_grows bs (v.below + 1) v.expression v.state
  rw [added_trans first (here.trans last), added_trans here last]
  apply List.mem_append_right
  apply List.mem_append_left
  have room := last.not_isFull room
  rw [s.follow_eq_run bs (s.room_of_mem_visits bs visited)] at room ⊢
  rw [← s.added_entered v.expression]
  exact mem_added_run (s.follow_grows bs v.below) recorded room

/-- **What a visit follows is visited**, if levels are left and the chain does not fill up. -/
theorem exists_visit_below (visited : v ∈ s.visits bs levels t st)
    (followed : .follow y ∈ s.taken bs v.expression v.state) {left : Nat}
    (enough : v.below = left + 1) (room : (s.follow bs levels t st).chain.isFull = false) :
    ∃ w ∈ s.visits bs levels t st, w.expression = y ∧ w.below = left := by
  obtain ⟨x, below, begun⟩ := v
  obtain rfl : below = left + 1 := enough
  obtain ⟨before, after, steps⟩ := List.append_of_mem followed
  have here := s.room_of_mem_visits bs visited
  have grows := s.follow_grows bs (left + 1)
  have last := (s.grows_of_mem_visits bs visited).2.not_isFull room
  rw [s.follow_eq_run bs here, steps, run_append, run_follow] at last
  let start := (s.entered x begun).run (s.follow bs (left + 1)) before
  have startRoom : start.chain.isFull = false :=
    ((grows y start).trans (Grows.run grows after _)).not_isFull last
  refine ⟨⟨y, left, start⟩, s.visits_subset bs visited ?_, rfl, rfl⟩
  exact s.mem_visits_of_step bs here steps (s.mem_visits_self bs startRoom left y)

/-! ## Names -/

/-- **Visits are in order** after some names: each begins with those names and the ones that the
visits before it expanded. -/
def InOrder : List Text → List Visit → Prop
  | _, [] => True
  | seen, v :: later => v.state.seen = seen ∧ InOrder (seen ++ (s.expandedBy? v).toList) later

theorem inOrder_append {seen : List Text} {first later : List Visit} :
    s.InOrder seen (first ++ later) ↔
      s.InOrder seen first ∧ s.InOrder (seen ++ first.filterMap s.expandedBy?) later := by
  induction first generalizing seen with
  | nil => simp [InOrder]
  | cons v first ih =>
    rw [List.cons_append, InOrder, InOrder, ih, List.filterMap_cons, and_assoc]
    cases s.expandedBy? v <;> simp

section Steps

variable {follow : Tree → TraceState → TraceState} {visits : Tree → TraceState → List Visit}
  (marks : ∀ t st, (follow t st).seen = st.seen ++ (visits t st).filterMap s.expandedBy?)
include marks

theorem seen_run (steps : List Step) (st : TraceState) :
    (st.run follow steps).seen =
      st.seen ++ (visitsOf follow visits steps st).filterMap s.expandedBy? := by
  induction steps generalizing st with
  | nil => exact (List.append_nil _).symm
  | cons step steps ih =>
    cases step with
    | record o => exact ih (st.record o)
    | follow t =>
      rw [run_follow, ih, visitsOf, List.filterMap_append, marks, List.append_assoc]

theorem inOrder_visitsOf (ordered : ∀ t st, s.InOrder st.seen (visits t st)) (steps : List Step)
    (st : TraceState) : s.InOrder st.seen (visitsOf follow visits steps st) := by
  induction steps generalizing st with
  | nil => trivial
  | cons step steps ih =>
    cases step with
    | record o => exact ih (st.record o)
    | follow t =>
      rw [visitsOf, inOrder_append, ← marks]
      exact ⟨ordered t st, ih (follow t st)⟩

end Steps

/-- **The names of a trace**: it marks the names that its visits expand, in order. -/
theorem seen_follow (levels : Nat) (t : Tree) (st : TraceState) :
    (s.follow bs levels t st).seen =
      st.seen ++ (s.visits bs levels t st).filterMap s.expandedBy? := by
  induction levels generalizing t st with
  | zero => exact (List.append_nil _).symm
  | succ levels ih =>
    cases full : st.chain.isFull with
    | true =>
      rw [s.follow_of_isFull bs full, visits, if_pos full]
      exact (List.append_nil _).symm
    | false =>
      rw [s.follow_eq_run bs full, s.seen_run ih, s.visits_of_room bs full, List.filterMap_cons,
        entered, expandedBy?]
      cases s.expanded? t st <;> simp

/-- **The visits of a trace are in order** after the names that it begins with. -/
theorem inOrder_visits (levels : Nat) (t : Tree) (st : TraceState) :
    s.InOrder st.seen (s.visits bs levels t st) := by
  induction levels generalizing t st with
  | zero => trivial
  | succ levels ih =>
    cases full : st.chain.isFull with
    | true =>
      rw [visits, if_pos full]
      trivial
    | false =>
      rw [s.visits_of_room bs full]
      exact ⟨rfl, s.inOrder_visitsOf (s.seen_follow bs levels) ih _ (s.entered t st)⟩

namespace InOrder

variable {s} {seen : List Text} {vs : List Visit} {w : Visit} {name : Text}

/-- The names at first are known to every visit. -/
theorem subset_seen (ordered : s.InOrder seen vs) (mem : v ∈ vs) : seen ⊆ v.state.seen := by
  induction vs generalizing seen with
  | nil => cases mem
  | cons first later ih =>
    obtain ⟨here, rest⟩ := ordered
    rcases List.mem_cons.mp mem with rfl | mem
    · rw [here]
      exact List.Subset.refl _
    · exact List.Subset.trans (List.subset_append_left _ _) (ih rest mem)

/-- A name that a visit begins with was there at first or was expanded by a visit. -/
theorem exists_of_seen (ordered : s.InOrder seen vs) (mem : v ∈ vs) (known : name ∈ v.state.seen) :
    name ∈ seen ∨ ∃ w ∈ vs, s.expandedBy? w = some name := by
  induction vs generalizing seen with
  | nil => cases mem
  | cons first later ih =>
    obtain ⟨here, rest⟩ := ordered
    rcases List.mem_cons.mp mem with rfl | mem
    · rw [here] at known
      exact .inl known
    · rcases ih rest mem with atFirst | ⟨w, visited, expands⟩
      · rcases List.mem_append.mp atFirst with atFirst | expands
        · exact .inl atFirst
        · exact .inr ⟨first, List.mem_cons_self, Option.mem_toList.mp expands⟩
      · exact .inr ⟨w, List.mem_cons_of_mem _ visited, expands⟩

/-- **No name is expanded twice.** -/
theorem eq_of_expanded (ordered : s.InOrder seen vs) (mem : v ∈ vs) (mem' : w ∈ vs)
    (expands : s.expandedBy? v = some name) (expands' : s.expandedBy? w = some name) : v = w := by
  -- a later visit knows what an earlier one expanded, and does not expand it again
  have once {first x : Visit} {later : List Visit} {seen : List Text}
      (rest : s.InOrder (seen ++ (s.expandedBy? first).toList) later) (mem : x ∈ later)
      (expands : s.expandedBy? first = some name) : s.expandedBy? x ≠ some name := by
    intro again
    apply (s.expanded?_eq_some.mp again).2.2
    apply rest.subset_seen mem
    rw [expands]
    exact List.mem_append_right _ List.mem_cons_self
  induction vs generalizing seen with
  | nil => cases mem
  | cons first later ih =>
    obtain ⟨-, rest⟩ := ordered
    rcases List.mem_cons.mp mem with rfl | inLater <;>
      rcases List.mem_cons.mp mem' with rfl | inLater'
    · rfl
    · exact absurd expands' (once rest inLater' expands)
    · exact absurd expands (once rest inLater expands')
    · exact ih rest inLater inLater'

end InOrder

end Source

end JsxOrigin
