import JsxOrigin.Proofs.Provenance.Visits

/-!
# How far a trace reaches

A trace follows an expression to what feeds it, down to a fixed depth, and expands each name at most
once. **The laws** say what comes of that.

* *Nothing else is found* (`Source.trace_sound`): whatever the state, a finding that is added is
  emitted by an expression that the depth lets the trace reach.
* *What is reached in time is found* (`Source.mem_added_iff`, `Source.literal_added_iff`): in a
  trace that begins with no names and does not fill its chain, exactly those findings are added that
  are emitted at the end of a way on which no name is expanded too late. A name is expanded where it
  first comes up, and if that is deep down, the rest of a way through the name may lie below the
  last level although the way itself is short (`Source.literal_hidden_by_nestedName`).

The second law rests on the account of the visits of a trace. The steps of a plan are all taken: by
the visit itself, or by the one that expanded the name (`taken_by_visit`). So a way is walked along
visits (`exists_visit_of_reachesInTime`), and the way to a visit is one on which every name was
expanded right there, and by no other visit (`reachesInTime_of_mem_visits`).
-/

namespace JsxOrigin

namespace Source

open TraceState

variable (s : Source) (bs : Bindings Tree)
variable {levels : Nat} {t : Tree} {st : TraceState} {o : Origin} {v : Visit}

/-! ## Ways in time -/

/-- The names that visits expand, each with the levels that are left below the visit. -/
def expansionsOf (vs : List Visit) : List (Text × Nat) :=
  vs.filterMap fun v => (s.expandedBy? v).map (·, v.below)

/-- **The names that a trace expands**, each with the levels that are left where it does. -/
def expansions (depth : Int) (e : Tree) (st : TraceState) : List (Text × Nat) :=
  s.expansionsOf (s.visits bs (Trace.levels depth) e st)

theorem mem_expansionsOf {vs : List Visit} {name : Text} {left : Nat} :
    (name, left) ∈ s.expansionsOf vs ↔ ∃ v ∈ vs, s.expandedBy? v = some name ∧ v.below = left := by
  simp only [expansionsOf, List.mem_filterMap, Option.map_eq_some_iff, Prod.mk.injEq]
  constructor
  · rintro ⟨v, mem, _, expands, rfl, below⟩
    exact ⟨v, mem, expands, below⟩
  · rintro ⟨v, mem, expands, below⟩
    exact ⟨v, mem, name, expands, rfl, below⟩

/-- **An expression is reached in time**: on the way to it, no name is expanded where fewer levels
are left than the way still has steps. -/
inductive ReachesInTime (expansions : List (Text × Nat)) : Nat → Tree → Tree → Prop
  | here (x : Tree) : ReachesInTime expansions 0 x x
  | step {k : Nat} {x y z : Tree} (fed : s.FedBy bs x.unwrap y)
      (inTime : x.unwrap.kind.isName = true → ∀ left,
        (s.text x.unwrap, left) ∈ expansions → k + 1 ≤ left)
      (rest : ReachesInTime expansions k y z) : ReachesInTime expansions (k + 1) x z

theorem ReachesInTime.reaches {s : Source} {bs : Bindings Tree} {expansions : List (Text × Nat)}
    {k : Nat} {x z : Tree} (inTime : s.ReachesInTime bs expansions k x z) : s.Reaches bs k x z := by
  induction inTime with
  | here x => exact .here x
  | step fed _ _ ih => exact .step fed ih

/-! ## Soundness -/

/-- The levels that a trace has cover the feeding steps that its depth allows. -/
theorem lt_levels_iff {k : Nat} {depth : Int} :
    k < Trace.levels depth ↔ (k : Int) ≤ Trace.maxDepth - depth := by
  unfold Trace.levels Trace.maxDepth
  omega

/-- A visit is reached in time by as many feeding steps as levels were used up: no other visit
expands the names on the way to it. -/
theorem reachesInTime_of_mem_visits {whole : List Visit} {seen : List Text}
    (ordered : s.InOrder seen whole) (visited : v ∈ s.visits bs levels t st)
    (inside : s.visits bs levels t st ⊆ whole) :
    ∃ k, k + v.below + 1 = levels ∧
      s.ReachesInTime bs (s.expansionsOf whole) k t v.expression := by
  refine s.visits_induct bs (motive := fun levels t st v => s.visits bs levels t st ⊆ whole →
    ∃ k, k + v.below + 1 = levels ∧
      s.ReachesInTime bs (s.expansionsOf whole) k t v.expression) ?_ ?_ visited inside
  · intro levels t st _ _
    exact ⟨0, congrArg (· + 1) (Nat.zero_add levels), .here t⟩
  · intro levels t st before u after v room steps _ ih inside
    obtain ⟨k, count, rest⟩ := ih fun _ mem => inside (s.mem_visits_of_step bs room steps mem)
    have followed : .follow u ∈ s.taken bs t st := by
      rw [steps]
      exact List.mem_append_right _ List.mem_cons_self
    refine ⟨k + 1, by omega, .step ?_ ?_ rest⟩
    · exact (s.follow_mem_plan bs).mp (s.mem_plan_of_taken bs followed)
    · intro isName left mem
      obtain ⟨w, visited', expands', rfl⟩ := s.mem_expansionsOf.mp mem
      have here := inside (s.mem_visits_self bs room levels t)
      have expands : s.expandedBy? ⟨t, levels, st⟩ = some (s.text t.unwrap) :=
        s.expanded_of_follow_mem_taken bs followed isName
      -- the visit to `t` expands the name, so no other visit does and its levels are those left
      have same := ordered.eq_of_expanded visited' here expands' expands
      rw [same]
      show k + 1 ≤ levels
      omega

/-- A finding that is added is emitted by an expression that is reached in time. -/
theorem exists_reachesInTime_of_added {depth : Int} {e : Tree}
    (mem : o ∈ st.added (s.traceFrom bs depth e st)) :
    ∃ (k : Nat) (x : Tree), (k : Int) ≤ Trace.maxDepth - depth ∧
      s.ReachesInTime bs (s.expansions bs depth e st) k e x ∧ s.Emits bs x.unwrap o := by
  obtain ⟨v, visited, recorded⟩ := s.exists_visit_of_added bs mem
  have ordered := s.inOrder_visits bs (Trace.levels depth) e st
  obtain ⟨k, count, reaches⟩ :=
    s.reachesInTime_of_mem_visits bs ordered visited (List.Subset.refl _)
  have emits := (s.record_mem_plan bs).mp (s.mem_plan_of_taken bs recorded)
  exact ⟨k, v.expression, lt_levels_iff.mp (by omega), reaches, emits⟩

/-- **Every finding comes from an expression in reach.** A trace adds findings at the end of the
chain, and each of them is emitted by an expression that is reached from the traced one by no more
feeding steps than the depth allows. This holds for every table, depth, limit and set of names. -/
theorem trace_sound (depth : Int) (e : Tree) (st : TraceState) :
    (s.traceFrom bs depth e st).chain.findings =
        st.chain.findings ++ st.added (s.traceFrom bs depth e st) ∧
      ∀ o ∈ st.added (s.traceFrom bs depth e st), ∃ (k : Nat) (x : Tree),
        (k : Int) ≤ Trace.maxDepth - depth ∧ s.Reaches bs k e x ∧ s.Emits bs x.unwrap o := by
  refine ⟨(s.follow_grows bs _ e st).findings_eq, ?_⟩
  intro o mem
  obtain ⟨k, x, bound, reaches, emits⟩ := s.exists_reachesInTime_of_added bs mem
  exact ⟨k, x, bound, reaches.reaches, emits⟩

/-- The law for a trace of `x` one level above the last one, where `x` is declared as a number on
the second line: the number is found, and it is one step away. -/
theorem trace_sound_lastLevels :
    let source : Source := { file := "m.js", bytes := [0x78, 0x0a, 0x31] }
    let name : Tree := { kind := .identifier, named := true, start := 0, stop := 1, fields := [],
                         children := [] }
    let number : Tree := { name with kind := .number, start := 2, stop := 3 }
    let table : Bindings Tree :=
      [("x", { name := "x", definition := "m.js:2", init := some number })]
    let start : TraceState := { chain := { limit := 9 }, seen := ["y"] }
    let found : Origin := .literal "m.js:2" "number"
    found ∈ start.added (source.traceFrom table 7 name start) ∧ ∃ (k : Nat) (x : Tree),
      (k : Int) ≤ 1 ∧ source.Reaches table k name x ∧ source.Emits table x.unwrap found := by
  intro source name number table start found
  have mem : found ∈ start.added (source.traceFrom table 7 name start) := by decide
  exact ⟨mem, (source.trace_sound table 7 name start).2 found mem⟩

/-! ## Completeness -/

/-- A visit takes each step of its plan, or the visit that expanded its name does. -/
theorem taken_by_visit (fresh : st.seen = []) (visited : v ∈ s.visits bs levels t st) {step : Step}
    (mem : step ∈ (s.plan bs v.expression.unwrap).all) :
    step ∈ s.taken bs v.expression v.state ∨ v.expression.unwrap.kind.isName = true ∧
      ∃ w ∈ s.visits bs levels t st, s.expandedBy? w = some (s.text v.expression.unwrap) ∧
        step ∈ s.taken bs w.expression w.state := by
  by_cases known : v.expression.unwrap.kind.isName = true ∧
      s.text v.expression.unwrap ∈ v.state.seen
  · obtain ⟨isName, known⟩ := known
    rw [s.plan_of_isName bs isName, all_namePlan] at mem
    rcases List.mem_cons.mp mem with rfl | expansion
    · left
      rw [s.taken_of_known bs isName known]
      exact List.mem_cons_self
    · right
      refine ⟨isName, ?_⟩
      have ordered := s.inOrder_visits bs levels t st
      rw [fresh] at ordered
      rcases ordered.exists_of_seen visited known with early | ⟨w, visited', expands⟩
      · cases early
      · obtain ⟨isName', sameName, new⟩ := s.expanded?_eq_some.mp expands
        refine ⟨w, visited', expands, ?_⟩
        rw [s.taken_of_fresh bs fun _ => sameName ▸ new, s.plan_of_isName bs isName', all_namePlan,
          sameName]
        exact List.mem_cons_of_mem _ expansion
  · left
    rwa [s.taken_of_fresh bs fun isName seen => known ⟨isName, seen⟩]

/-- What is reached in time from a visit is visited, if the visit has levels enough. -/
theorem exists_visit_of_reachesInTime (fresh : st.seen = [])
    (room : (s.follow bs levels t st).chain.isFull = false) {k : Nat} {x z : Tree}
    (reaches : s.ReachesInTime bs (s.expansionsOf (s.visits bs levels t st)) k x z) :
    ∀ v ∈ s.visits bs levels t st, v.expression = x → k ≤ v.below →
      ∃ w ∈ s.visits bs levels t st, w.expression = z := by
  induction reaches with
  | here x =>
    intro v visited atX _
    exact ⟨v, visited, atX⟩
  | @step k x y z fed inTime _ ih =>
    rintro v visited rfl enough
    -- a visit that follows `y` with enough levels left visits the rest of the way
    have onward {w : Visit} (visited : w ∈ s.visits bs levels t st) (enough : k + 1 ≤ w.below)
        (followed : .follow y ∈ s.taken bs w.expression w.state) :
        ∃ w ∈ s.visits bs levels t st, w.expression = z := by
      obtain ⟨left, count⟩ : ∃ left, w.below = left + 1 := ⟨w.below - 1, by omega⟩
      obtain ⟨u, visited', atY, below⟩ := s.exists_visit_below bs visited followed count room
      exact ih u visited' atY (by omega)
    have followed := (s.follow_mem_plan bs).mpr fed
    rcases s.taken_by_visit bs fresh visited followed with
      here | ⟨isName, w, visited', expands, there⟩
    · exact onward visited enough here
    · have early := inTime isName w.below (s.mem_expansionsOf.mpr ⟨w, visited', expands, rfl⟩)
      exact onward visited' early there

/-- **What a trace finds**, if it begins with no names and does not fill its chain: exactly what is
emitted by expressions that are reached in time. -/
theorem mem_added_iff {depth : Int} {e : Tree} (fresh : st.seen = [])
    (room : (s.traceFrom bs depth e st).chain.isFull = false) :
    o ∈ st.added (s.traceFrom bs depth e st) ↔
      ∃ (k : Nat) (x : Tree), (k : Int) ≤ Trace.maxDepth - depth ∧
        s.ReachesInTime bs (s.expansions bs depth e st) k e x ∧ s.Emits bs x.unwrap o := by
  constructor
  · exact s.exists_reachesInTime_of_added bs
  · rintro ⟨k, x, bound, reaches, emits⟩
    have roomFirst := (s.follow_grows bs _ e st).not_isFull room
    obtain ⟨below, count⟩ := Nat.exists_eq_add_of_lt (lt_levels_iff.mpr bound)
    have start : ⟨e, k + below, st⟩ ∈ s.visits bs (Trace.levels depth) e st := by
      rw [count]
      exact s.mem_visits_self bs roomFirst (k + below) e
    obtain ⟨v, visited, rfl⟩ := s.exists_visit_of_reachesInTime bs fresh room reaches _ start rfl
      (Nat.le_add_right k below)
    have recorded := (s.record_mem_plan bs).mpr emits
    rcases s.taken_by_visit bs fresh visited recorded with here | ⟨_, w, visited', _, there⟩
    · exact s.mem_added_of_visit bs visited here room
    · exact s.mem_added_of_visit bs visited' there room

theorem emits_literal_iff {x : Tree} {span value : Text} :
    s.Emits bs x (.literal span value) ↔
      x.kind.literalValue? = some value ∧ span = s.span x := by
  constructor
  · rintro ⟨isLiteral⟩
    exact ⟨isLiteral, rfl⟩
  · rintro ⟨isLiteral, rfl⟩
    exact .literal isLiteral

/-- **The literals that a trace finds.** In a trace from the top that begins with no names and does
not fill its chain, a literal is found exactly if it is reached, in no more feeding steps than the
greatest depth, on a way on which no name is expanded too late. So a literal within that depth is
hidden only where every way to it goes through a name that first came up too deep. -/
theorem literal_added_iff (e : Tree) (st : TraceState) (fresh : st.seen = [])
    (room : (s.traceFrom bs 0 e st).chain.isFull = false) (span value : Text) :
    .literal span value ∈ st.added (s.traceFrom bs 0 e st) ↔
      ∃ (k : Nat) (x : Tree), (k : Int) ≤ Trace.maxDepth ∧
        s.ReachesInTime bs (s.expansions bs 0 e st) k e x ∧
        x.unwrap.kind.literalValue? = some value ∧ span = s.span x.unwrap := by
  rw [s.mem_added_iff bs fresh room]
  simp only [emits_literal_iff, Int.sub_zero]

/-- The law for `[[x], x]`, where `x` is declared as a number on the second line: the number is
found although the second `x` is not expanded, since the first one is expanded in time. -/
theorem literal_added_iff_nameTwice :
    let source : Source := { file := "m.js", bytes := [0x78, 0x0a, 0x31] }
    let name : Tree := { kind := .identifier, named := true, start := 0, stop := 1, fields := [],
                         children := [] }
    let number : Tree := { name with kind := .number, start := 2, stop := 3 }
    let comma : Tree := { name with kind := .comma, named := false }
    let list (elements : List Tree) : Tree := { name with kind := .array, children := elements }
    let table : Bindings Tree :=
      [("x", { name := "x", definition := "m.js:2", init := some number })]
    let start : TraceState := { chain := { limit := 9 } }
    let e := list [list [name], comma, name]
    start.seen = [] ∧ (source.traceFrom table 0 e start).chain.isFull = false ∧
      source.expansions table 0 e start = [(("x" : Text), 6)] ∧
      .literal "m.js:2" "number" ∈ start.added (source.traceFrom table 0 e start) := by
  intro source name number comma list table start e
  have room : (source.traceFrom table 0 e start).chain.isFull = false := by decide
  have expanded : source.expansions table 0 e start = [(("x" : Text), 6)] := by decide
  refine ⟨rfl, room, expanded, ?_⟩
  rw [source.literal_added_iff table e start rfl room]
  refine ⟨2, number, by decide, ?_, by decide, by decide⟩
  rw [expanded]
  have second : (1, name) ∈ e.elements := List.mem_cons_of_mem _ List.mem_cons_self
  refine .step (.element rfl second (by decide)) (fun isName => by cases isName) ?_
  refine .step (.initializer rfl rfl rfl) (fun _ left mem => ?_) (.here number)
  cases List.mem_singleton.mp mem
  decide

/-- A literal can be hidden: where `x` is declared as a number and `[[[[[[[[x]]]]]]], x]` is traced,
the number is two steps away, but `x` first comes up on the last level, where it is expanded to
nothing. -/
theorem literal_hidden_by_nestedName :
    let source : Source := { file := "m.js", bytes := [0x78, 0x0a, 0x31] }
    let name : Tree := { kind := .identifier, named := true, start := 0, stop := 1, fields := [],
                         children := [] }
    let number : Tree := { name with kind := .number, start := 2, stop := 3, fields := [.value] }
    let comma : Tree := { name with kind := .comma, named := false }
    let list (elements : List Tree) : Tree := { name with kind := .array, children := elements }
    let e := list [list [list [list [list [list [list [list [name]]]]]]], comma, name]
    let declared : Tree :=
      { name with kind := .declarator, children := [{ name with fields := [.name] }, number] }
    let table := source.bindings { name with kind := .program, children := [declared, e] }
    let start : TraceState := { chain := { limit := 99 } }
    source.Reaches table 2 e number ∧ number.unwrap.kind.literalValue? = some "number" ∧
      start.seen = [] ∧ (source.traceFrom table 0 e start).chain.isFull = false ∧
      .literal (source.span number.unwrap) "number" ∉
        start.added (source.traceFrom table 0 e start) := by
  intro source name number comma list e declared table start
  have second : (1, name) ∈ e.elements := List.mem_cons_of_mem _ List.mem_cons_self
  have bound : table.lookup (source.text name) =
      some { name := "x", definition := "m.js:1", init := some number } := by
    with_unfolding_all rfl
  refine ⟨?_, rfl, rfl, by decide +kernel, by decide +kernel⟩
  refine .step (.element rfl second (by decide)) ?_
  exact .step (.initializer rfl bound rfl) (.here number)

end Source

end JsxOrigin
