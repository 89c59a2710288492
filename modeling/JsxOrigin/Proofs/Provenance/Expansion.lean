import JsxOrigin.Proofs.ModuleGraph.Declarations
import JsxOrigin.Proofs.Provenance.Visits

/-!
# Names are expanded once

A trace marks each name that comes up, and follows a name to its initializer or its import only if
it was not marked before. **The law** (`Source.seen_traceFrom`): after a trace exactly those names
are marked that were marked before it or that it recorded, whatever the depth and the limit of the
chain; the initializers and imports that it recorded belong to different names that it marked; and
nothing that the bindings say about the value of a name marked before plays a part.

A name is marked by the visit that expands it. That visit has room, so the name was recorded
(`mem_added_of_expanded`), and what the name is expanded to comes directly after it, before anything
else is followed (`expansions_follow`). A module gives a name an initializer or imports it, and
never both (`bindings_oneSided`), so there is at most one such finding for a name.
-/

namespace JsxOrigin

/-- Whether a finding says what a name is expanded to. -/
def Finding.isExpansion {τ ι : Type} : Finding τ ι → Bool
  | init .. | imported .. => true
  | _ => false

/-- No name has both an initializer and an import. -/
def Bindings.OneSided (bs : Bindings Tree) : Prop :=
  ∀ name b, bs.lookup name = some b → b.init = none ∨ b.importOrigin = none

namespace TraceState

variable {follow : Tree → TraceState → TraceState}

@[simp] theorem added_self (st : TraceState) : st.added st = [] := by
  simp [added]

/-- A finding that is recorded is added or refused. -/
theorem added_record_sublist (st : TraceState) (o : Origin) :
    (st.added (st.record o)).Sublist [o] := by
  cases full : st.chain.isFull with
  | true => simp [added, Chain.append_of_isFull full]
  | false =>
    have recorded : st.added (st.record o) = [o] := added_record full o
    exact recorded ▸ List.Sublist.refl [o]

/-- Some of the findings that are recorded one after another are added, in order. -/
theorem added_run_records (grows : ∀ t st, Grows st (follow t st)) (origins : List Origin)
    (st : TraceState) : (st.added (st.run follow (origins.map .record))).Sublist origins := by
  induction origins generalizing st with
  | nil => simp [run]
  | cons o origins ih =>
    rw [List.map_cons, run_record, added_trans (grows_record st o) (Grows.run grows _ _)]
    exact (added_record_sublist st o).append (ih (st.record o))

theorem visitsOf_records {visits : Tree → TraceState → List Visit} (origins : List Origin)
    (steps : List Step) (st : TraceState) :
    visitsOf follow visits (origins.map .record ++ steps) st =
      visitsOf follow visits steps (st.run follow (origins.map .record)) := by
  induction origins generalizing st with
  | nil => rfl
  | cons o origins ih => exact ih (st.record o)

end TraceState

namespace Source

open TraceState

variable (s : Source) (bs : Bindings Tree)
variable {levels : Nat} {t : Tree} {st : TraceState} {o : Origin} {name : Text}

/-! ## What a name is expanded to -/

/-- The finding for the value of a name: its initializer, or else its import. -/
def expansionOrigin? (name : Text) : Option Origin :=
  (bs.lookup name).bind fun b =>
    match b.init, b.importOrigin with
    | some value, _ => some (.init (s.span value))
    | none, some i => some (.imported i.module i.imported b.definition)
    | none, none => none

/-- A declaration gives a name a value or imports it. -/
theorem declared_oneSided {b : Binding Tree} (declares : b ∈ s.declared t) :
    b.init = none ∨ b.importOrigin = none := by
  unfold declared at declares
  split at declares
  case h_1 =>
    split at declares
    · split at declares
      · rw [List.mem_singleton.mp declares]
        exact .inr rfl
      · cases declares
    · cases declares
  case h_2 | h_3 =>
    split at declares
    · rw [List.mem_singleton.mp declares]
      exact .inr rfl
    · cases declares
  case h_4 =>
    split at declares
    · obtain ⟨specifier, -, rfl⟩ := List.mem_map.mp declares
      exact .inl rfl
    · cases declares
  case h_5 => cases declares

/-- **The bindings of a module** have no name with both a value and an import. -/
theorem bindings_oneSided (root : Tree) : (s.bindings root).OneSided := by
  intro name b bound
  rw [lookup_bindings] at bound
  have mem := (List.mem_filter.mp (List.mem_of_getLast? bound)).1
  obtain ⟨t, -, declares⟩ := List.mem_flatMap.mp mem
  exact s.declared_oneSided declares

/-- A name is expanded to one finding at most, and then its initializer is followed. -/
theorem expansion_eq (oneSided : bs.OneSided) (name : Text) :
    s.expansion bs name = (s.expansionOrigin? bs name).toList.map .record ++
      ((bs.lookup name).bind (·.init)).toList.map .follow := by
  unfold expansion expansionOrigin?
  cases bound : bs.lookup name with
  | none => rfl
  | some b =>
    have sides := oneSided name b bound
    cases init : b.init <;> cases origin : b.importOrigin <;> simp_all

/-! ## The names that are marked -/

/-- A name that a visit expands was recorded, since the visit had room. -/
theorem mem_added_of_expanded {v : Visit} (visited : v ∈ s.visits bs levels t st)
    (expands : s.expandedBy? v = some name) :
    ∃ span, .ident name span ∈ st.added (s.follow bs levels t st) := by
  obtain ⟨isName, rfl, -⟩ := s.expanded?_eq_some.mp expands
  have room := s.room_of_mem_visits bs visited
  have steps : (s.plan bs v.expression.unwrap).steps =
      .record (.ident (s.text v.expression.unwrap) (s.span v.expression.unwrap)) :: [] := by
    rw [s.plan_of_isName bs isName]
    rfl
  have recorded := s.mem_added_of_plan room v.below steps
  obtain ⟨first, last⟩ := s.grows_of_mem_visits bs visited
  have here := s.follow_grows bs (v.below + 1) v.expression v.state
  refine ⟨s.span v.expression.unwrap, ?_⟩
  rw [added_trans first (here.trans last), added_trans here last]
  exact List.mem_append_right _ (List.mem_append_left _ recorded)

/-- A name that is recorded was marked before or is expanded by a visit. -/
theorem known_of_mem_added {span : Text}
    (mem : .ident name span ∈ st.added (s.follow bs levels t st)) :
    name ∈ st.seen ∨ ∃ v ∈ s.visits bs levels t st, s.expandedBy? v = some name := by
  obtain ⟨v, visited, recorded⟩ := s.exists_visit_of_added bs mem
  have emits := (s.record_mem_plan bs).mp (s.mem_plan_of_taken bs recorded)
  have isName : v.expression.unwrap.kind.isName = true ∧ s.text v.expression.unwrap = name := by
    cases emits with
    | ident isName => exact ⟨isName, rfl⟩
  by_cases known : name ∈ v.state.seen
  · exact (s.inOrder_visits bs levels t st).exists_of_seen visited known
  · exact .inr ⟨v, visited, s.expanded?_eq_some.mpr ⟨isName.1, isName.2, known⟩⟩

/-- **The names that are marked** after a trace are those before it and those that it recorded. -/
theorem mem_seen_follow : name ∈ (s.follow bs levels t st).seen ↔
    name ∈ st.seen ∨ ∃ span, .ident name span ∈ st.added (s.follow bs levels t st) := by
  rw [s.seen_follow bs, List.mem_append, List.mem_filterMap]
  constructor
  · rintro (before | ⟨v, visited, expands⟩)
    · exact .inl before
    · exact .inr (s.mem_added_of_expanded bs visited expands)
  · rintro (before | ⟨span, recorded⟩)
    · exact .inl before
    · exact s.known_of_mem_added bs recorded

namespace InOrder

variable {s} {seen : List Text} {vs : List Visit}

/-- The names that visits expand are different from each other and from those at first. -/
theorem fresh (ordered : s.InOrder seen vs) :
    (vs.filterMap s.expandedBy?).Nodup ∧ ∀ name ∈ vs.filterMap s.expandedBy?, name ∉ seen := by
  induction vs generalizing seen with
  | nil => simp
  | cons v later ih =>
    obtain ⟨here, rest⟩ := ordered
    obtain ⟨once, new⟩ := ih rest
    cases expands : s.expandedBy? v with
    | none =>
      rw [List.filterMap_cons_none expands]
      refine ⟨once, ?_⟩
      intro name mem known
      exact new name mem (List.mem_append_left _ known)
    | some first =>
      rw [List.filterMap_cons_some expands, List.nodup_cons]
      rw [expands] at new
      refine ⟨⟨?_, once⟩, ?_⟩
      · intro again
        exact new first again (List.mem_append_right _ List.mem_cons_self)
      · intro name mem known
        rcases List.mem_cons.mp mem with rfl | mem
        · exact (s.expanded?_eq_some.mp expands).2.2 (here ▸ known)
        · exact new name mem (List.mem_append_left _ known)

end InOrder

/-! ## What is recorded for them -/

/-- Where no name is expanded, no finding says what a name is expanded to. -/
theorem isExpansion_of_taken (nothing : s.expanded? t st = none)
    (mem : .record o ∈ s.taken bs t st) : o.isExpansion = false := by
  by_cases isName : t.unwrap.kind.isName = true
  · by_cases known : s.text t.unwrap ∈ st.seen
    · rw [s.taken_of_known bs isName known] at mem
      cases List.mem_singleton.mp mem
      rfl
    · rw [s.expanded?_eq_some.mpr ⟨isName, rfl, known⟩] at nothing
      cases nothing
  · have emits := (s.record_mem_plan bs).mp (s.mem_plan_of_taken bs mem)
    cases emits with
    | init isName' | imported isName' => exact absurd isName' isName
    | _ => rfl

/-- The findings for the names that visits expand. -/
def expansionOriginsOf (vs : List Visit) : List Origin :=
  (vs.filterMap s.expandedBy?).filterMap (s.expansionOrigin? bs)

theorem expansionOriginsOf_cons (v : Visit) (later : List Visit) :
    s.expansionOriginsOf bs (v :: later) =
      ((s.expandedBy? v).bind (s.expansionOrigin? bs)).toList ++ s.expansionOriginsOf bs later := by
  unfold expansionOriginsOf
  cases expands : s.expandedBy? v with
  | none => rw [List.filterMap_cons_none expands]; rfl
  | some name =>
    rw [List.filterMap_cons_some expands, List.filterMap_cons, Option.bind_some]
    cases s.expansionOrigin? bs name <;> rfl

theorem expansionOriginsOf_append (first later : List Visit) :
    s.expansionOriginsOf bs (first ++ later) =
      s.expansionOriginsOf bs first ++ s.expansionOriginsOf bs later := by
  simp only [expansionOriginsOf, List.filterMap_append]

/-- **Steps that say of no name what it is expanded to** add only what is added where an expression
is followed. -/
theorem expansions_run {follow : Tree → TraceState → TraceState}
    {visits : Tree → TraceState → List Visit} (grows : ∀ t st, Grows st (follow t st))
    (kept : ∀ t st, ((added st (follow t st)).filter Finding.isExpansion).Sublist
      (s.expansionOriginsOf bs (visits t st)))
    (steps : List Step) (plain : ∀ o, .record o ∈ steps → o.isExpansion = false)
    (st : TraceState) :
    ((st.added (st.run follow steps)).filter Finding.isExpansion).Sublist
      (s.expansionOriginsOf bs (visitsOf follow visits steps st)) := by
  induction steps generalizing st with
  | nil => simp [run]
  | cons step steps ih =>
    have rest := fun st => ih (fun o mem => plain o (List.mem_cons_of_mem _ mem)) st
    cases step with
    | record o =>
      have nothing : (st.added (st.record o)).filter Finding.isExpansion = [] := by
        rw [List.filter_eq_nil_iff]
        intro a mem
        rw [List.mem_singleton.mp ((added_record_sublist st o).subset mem),
          plain o List.mem_cons_self]
        exact Bool.false_ne_true
      rw [run_record, added_trans (grows_record st o) (Grows.run grows _ _), List.filter_append,
        nothing, List.nil_append]
      exact rest (st.record o)
    | follow t =>
      rw [run_follow, added_trans (grows t st) (Grows.run grows _ _), List.filter_append,
        visitsOf, expansionOriginsOf_append]
      exact (kept t st).append (rest (follow t st))

/-- **The initializers and imports that a trace records** are those of the names that it expands,
in the same order; some may be missing at the end, when the chain is full. -/
theorem expansions_follow (oneSided : bs.OneSided) (levels : Nat) (t : Tree) (st : TraceState) :
    ((st.added (s.follow bs levels t st)).filter Finding.isExpansion).Sublist
      (s.expansionOriginsOf bs (s.visits bs levels t st)) := by
  induction levels generalizing t st with
  | zero => simp [follow]
  | succ levels ih =>
    have grows := s.follow_grows bs levels
    cases full : st.chain.isFull with
    | true =>
      rw [s.follow_of_isFull bs full]
      simp
    | false =>
      rw [s.follow_eq_run bs full, s.visits_of_room bs full, ← s.added_entered t,
        expansionOriginsOf_cons, expandedBy?]
      cases expands : s.expanded? t st with
      | none => exact s.expansions_run bs grows ih _ (fun o => s.isExpansion_of_taken bs expands) _
      | some name =>
        obtain ⟨isName, rfl, fresh⟩ := s.expanded?_eq_some.mp expands
        let name := s.text t.unwrap
        let value := (s.expansionOrigin? bs name).toList
        let origins := .ident name (s.span t.unwrap) :: value
        let followed := ((bs.lookup name).bind (·.init)).toList.map Step.follow
        -- the name and its value are recorded before anything is followed
        have steps : s.taken bs t st = origins.map .record ++ followed := by
          rw [s.taken_of_fresh bs fun _ => fresh, s.plan_of_isName bs isName, all_namePlan,
            s.expansion_eq bs oneSided]
          rfl
        have plain : ∀ o, .record o ∈ followed → o.isExpansion = false := by
          intro o mem
          obtain ⟨y, -, impossible⟩ := List.mem_map.mp mem
          cases impossible
        have values : (origins.filter Finding.isExpansion).Sublist value := by
          show (value.filter Finding.isExpansion).Sublist value
          exact List.filter_sublist
        have head := (added_run_records grows origins (s.entered t st)).filter Finding.isExpansion
        rw [steps, run_append, visitsOf_records,
          added_trans (Grows.run grows _ _) (Grows.run grows _ _), List.filter_append]
        exact (head.trans values).append (s.expansions_run bs grows ih followed plain _)

/-! ## Names that were marked before -/

/-- Steps lead to the same state by two ways of following expressions that agree in every state in
which the names of the present one are marked. -/
theorem run_eq_of_marked {follow follow' : Tree → TraceState → TraceState} {seen : List Text}
    (keeps : ∀ t st, st.seen ⊆ (follow t st).seen)
    (same : ∀ t st, seen ⊆ st.seen → follow' t st = follow t st) (steps : List Step)
    (st : TraceState) (marked : seen ⊆ st.seen) :
    st.run follow' steps = st.run follow steps := by
  induction steps generalizing st with
  | nil => rfl
  | cons step steps ih =>
    cases step with
    | record o => exact ih (st.record o) marked
    | follow t =>
      rw [run_follow, run_follow, same t st marked]
      exact ih (follow t st) (List.Subset.trans marked (keeps t st))

/-- Names stay marked. -/
theorem seen_subset_follow (levels : Nat) (t : Tree) (st : TraceState) :
    st.seen ⊆ (s.follow bs levels t st).seen := by
  rw [s.seen_follow bs]
  exact List.subset_append_left _ _

variable {bs} {bs' : Bindings Tree}

/-- The steps that are taken at an expression do not depend on the value of a marked name. -/
theorem taken_eq_of_marked (definitions : ∀ name, bs'.definitionOf name = bs.definitionOf name)
    (agree : ∀ name, name ∉ st.seen → bs.AgreeAt bs' name) :
    s.taken bs' t st = s.taken bs t st := by
  by_cases isName : t.unwrap.kind.isName = true
  · by_cases known : s.text t.unwrap ∈ st.seen
    · rw [s.taken_of_known bs' isName known, s.taken_of_known bs isName known]
    · rw [s.taken_of_fresh bs' fun _ => known, s.taken_of_fresh bs fun _ => known,
        s.plan_of_isName bs' isName, s.plan_of_isName bs isName,
        s.namePlan_eq_of_agree (agree _ known)]
  · rw [s.taken_of_fresh bs' fun name => absurd name isName,
      s.taken_of_fresh bs fun name => absurd name isName]
    rcases s.plan_cases t.unwrap with name | call | constant
    · have plain := s.once_of_not_isName bs isName
      rw [name] at plain
      cases plain
    · rw [call, call]
      simp only [callSteps, callOrigin, definitions]
    · rw [constant bs bs']

/-- **A marked name is not expanded**: a trace is the same with any other bindings that differ only
in the values of marked names. -/
theorem follow_eq_of_marked (definitions : ∀ name, bs'.definitionOf name = bs.definitionOf name)
    (levels : Nat) (t : Tree) (st : TraceState)
    (agree : ∀ name, name ∉ st.seen → bs.AgreeAt bs' name) :
    s.follow bs' levels t st = s.follow bs levels t st := by
  induction levels generalizing t st with
  | zero => rfl
  | succ levels ih =>
    cases full : st.chain.isFull with
    | true => rw [s.follow_of_isFull bs full, s.follow_of_isFull bs' full]
    | false =>
      rw [s.follow_eq_run bs full, s.follow_eq_run bs' full, s.taken_eq_of_marked definitions agree]
      have entered : st.seen ⊆ (s.entered t st).seen := List.subset_append_left _ _
      refine run_eq_of_marked (s.seen_subset_follow bs levels) ?_ _ _ entered
      intro u later marked
      exact ih u later fun name unmarked => agree name fun mem => unmarked (marked mem)

/-! ## The law -/

/-- **The cycle guard.** An expression is traced with the bindings of a module, from any depth and
in any state. Afterwards exactly those names are marked that were marked before or that the trace
recorded. The names that it marked are new and different from each other. The initializers and
imports that it recorded are those of such names, each of one name and in the order in which they
were marked, so there are at most as many of them. Names that were marked before are not expanded:
whatever other values bindings give them, the trace ends in the same state. -/
theorem seen_traceFrom (s : Source) (root t : Tree) (depth : Int) (st : TraceState) :
    let bs := s.bindings root
    let after := s.traceFrom bs depth t st
    let expansions := (st.added after).filter Finding.isExpansion
    (∀ name, name ∈ after.seen ↔
      name ∈ st.seen ∨ ∃ span, .ident name span ∈ st.added after) ∧
    (∃ marked : List Text, after.seen = st.seen ++ marked ∧ marked.Nodup ∧
      (∀ name ∈ marked, name ∉ st.seen) ∧
      expansions.Sublist (marked.filterMap (s.expansionOrigin? bs)) ∧
      expansions.length ≤ marked.length) ∧
    ∀ bs' : Bindings Tree, (∀ name, name ∉ st.seen → bs.AgreeAt bs' name) →
      (∀ name ∈ st.seen, bs'.definitionOf name = bs.definitionOf name) →
      s.traceFrom bs' depth t st = after := by
  intro bs after expansions
  refine ⟨fun name => s.mem_seen_follow bs, ?_, ?_⟩
  · let visits := s.visits bs (Trace.levels depth) t st
    obtain ⟨once, new⟩ := (s.inOrder_visits bs (Trace.levels depth) t st).fresh
    have listed : expansions.Sublist (s.expansionOriginsOf bs visits) :=
      s.expansions_follow bs (s.bindings_oneSided root) _ t st
    refine ⟨visits.filterMap s.expandedBy?, s.seen_follow bs _ t st, once, new, listed, ?_⟩
    exact Nat.le_trans listed.length_le (List.length_filterMap_le _ _)
  · intro bs' agree definitions
    refine s.follow_eq_of_marked ?_ _ t st agree
    intro name
    by_cases known : name ∈ st.seen
    · exact definitions name known
    · rw [Bindings.definitionOf, Bindings.definitionOf, agree name known]

/-- The law for a trace of `x`, where `x` and `y` are both declared as `[x, y]` and `y` is marked
before: it makes no difference that a second table gives `y` no value. -/
theorem seen_traceFrom_mutualReference :
    let source : Source := { file := "m.js", bytes := [0x78, 0x20, 0x79] }
    let x : Tree := { kind := .identifier, named := true, start := 0, stop := 1, fields := [],
                      children := [] }
    let y : Tree := { x with start := 2, stop := 3 }
    let comma : Tree := { x with kind := .comma, named := false }
    let list : Tree := { x with kind := .array, fields := [.value], children := [x, comma, y] }
    let declared (name : Tree) : Tree :=
      { x with kind := .declarator, children := [{ name with fields := [.name] }, list] }
    let bs := source.bindings { x with kind := .program, children := [declared x, declared y] }
    let bs' := Bindings.record { name := "y", definition := "m.js:1" } bs
    let start : TraceState := { chain := { limit := 6 }, seen := ["y"] }
    let after := source.traceFrom bs 0 x start
    (∀ name, name ∉ start.seen → bs.AgreeAt bs' name) ∧
      (∀ name ∈ start.seen, bs'.definitionOf name = bs.definitionOf name) ∧
      source.traceFrom bs' 0 x start = after ∧
      start.added after = [.ident "x" "m.js:1", .init "m.js:1", .arrayElem 0 "m.js:1",
        .ident "x" "m.js:1", .arrayElem 1 "m.js:1", .ident "y" "m.js:1"] ∧
      after.seen = [("y" : Text), ("x" : Text)] := by
  intro source x y comma list declared bs bs' start after
  have agree : ∀ name, name ∉ start.seen → bs.AgreeAt bs' name := by
    intro name unmarked
    exact (Table.get?_set_of_ne (fun same => unmarked (List.mem_singleton.mpr same)) _ bs).symm
  have definitions : ∀ name ∈ start.seen, bs'.definitionOf name = bs.definitionOf name := by
    intro name marked
    rw [List.mem_singleton.mp marked]
    decide +kernel
  exact ⟨agree, definitions, (source.seen_traceFrom _ x 0 start).2.2 bs' agree definitions,
    by decide +kernel, by decide +kernel⟩

end Source

end JsxOrigin
