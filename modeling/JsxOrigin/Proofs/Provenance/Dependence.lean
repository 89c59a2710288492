import JsxOrigin.Names.Reference
import JsxOrigin.Proofs.Provenance.Growth

/-!
# What a trace depends on

A trace looks names up in the bindings of a module, and its findings tell which. **The law**
(`Source.determined_by_findings`): two tables of bindings that agree on every name that the findings
of a trace show give the same trace, to the mark for refused findings and the names that have come
up; and two tables that agree on every name that is listed as a reference by itself give the same
references.

A plan looks up at most one name, and that is the name in the first finding that it records
(`plan_eq_of_agree`). A trace looks at a plan only while there is room, so this finding is never
refused (`mem_added_of_plan`), and the names looked up further down are found among the findings
that were added there.
-/

namespace JsxOrigin

/-! ## Names that are looked up -/

/-- The name that was looked up for a finding: a name that is read, or the name of a callee. -/
def Finding.lookedUp? {τ ι : Type} : Finding τ ι → Option τ
  | ident name _ => some name
  | call callee .. => some callee
  | _ => none

/-- Two tables know the same about a name. -/
def Bindings.AgreeAt (bs bs' : Bindings Tree) (name : Text) : Prop :=
  bs.lookup name = bs'.lookup name

/-- Two tables know the same about the names that were looked up for findings. -/
def Bindings.AgreeOn (bs bs' : Bindings Tree) (findings : List Origin) : Prop :=
  ∀ o ∈ findings, ∀ name, o.lookedUp? = some name → bs.AgreeAt bs' name

namespace TraceState

/-- The findings that were added on the way from one state to a later one. -/
def added (st st' : TraceState) : List Origin :=
  st'.chain.findings.drop st.chain.findings.length

theorem Grows.findings_eq {st st' : TraceState} (h : st.Grows st') :
    st'.chain.findings = st.chain.findings ++ st.added st' := by
  obtain ⟨more, same⟩ := h.findings
  rw [added, ← same, List.drop_left]

/-- What is added on the way through a state is what is added up to it and then from it on. -/
theorem added_trans {st st' st'' : TraceState} (h : st.Grows st') (h' : st'.Grows st'') :
    st.added st'' = st.added st' ++ st'.added st'' := by
  have whole := (h.trans h').findings_eq
  rw [h'.findings_eq, h.findings_eq, List.append_assoc] at whole
  exact (List.append_cancel_left whole).symm

/-- A finding that is recorded while there is room is added. -/
theorem added_record {st : TraceState} (room : st.chain.isFull = false) (o : Origin) :
    st.added (st.record o) = [o] := by
  rw [added, chain_record, Chain.append_of_not_isFull room, List.drop_left]

variable {bs bs' : Bindings Tree} {st st' st'' : TraceState}

theorem agreeOn_left (h : st.Grows st') (h' : st'.Grows st'')
    (agree : bs.AgreeOn bs' (st.added st'')) : bs.AgreeOn bs' (st.added st') := by
  intro o mem
  refine agree o ?_
  rw [added_trans h h']
  exact List.mem_append_left _ mem

theorem agreeOn_right (h : st.Grows st') (h' : st'.Grows st'')
    (agree : bs.AgreeOn bs' (st.added st'')) : bs.AgreeOn bs' (st'.added st'') := by
  intro o mem
  refine agree o ?_
  rw [added_trans h h']
  exact List.mem_append_right _ mem

/-- **The steps of a plan** lead to the same state by two ways of following expressions that agree
wherever the tables do. -/
theorem run_eq_of_agree {follow follow' : Tree → TraceState → TraceState}
    (grows : ∀ t st, Grows st (follow t st))
    (same : ∀ t st, bs.AgreeOn bs' (st.added (follow t st)) → follow' t st = follow t st)
    (steps : List Step) (st : TraceState)
    (agree : bs.AgreeOn bs' (st.added (st.run follow steps))) :
    st.run follow' steps = st.run follow steps := by
  induction steps generalizing st with
  | nil => rfl
  | cons step steps ih =>
    cases step with
    | record o => exact ih _ (agreeOn_right (grows_record st o) (Grows.run grows steps _) agree)
    | follow t =>
      have rest := Grows.run grows steps (follow t st)
      have first := same t st (agreeOn_left (grows t st) rest agree)
      rw [run_follow, run_follow, first]
      exact ih _ (agreeOn_right (grows t st) rest agree)

end TraceState

namespace Source

open TraceState

variable (s : Source) {bs bs' : Bindings Tree}

/-! ## What a plan looks up -/

theorem namePlan_eq_of_agree {t : Tree} (agree : bs.AgreeAt bs' (s.text t)) :
    s.namePlan bs' t = s.namePlan bs t := by
  have known : bs'.lookup (s.text t) = bs.lookup (s.text t) := agree.symm
  simp only [namePlan, expansion, known]

theorem callOrigin_eq_of_agree {t : Tree}
    (agree : ∀ name, (s.callOrigin bs t).lookedUp? = some name → bs.AgreeAt bs' name) :
    s.callOrigin bs' t = s.callOrigin bs t := by
  cases function : t.unwrapped? .function with
  | none => simp only [callOrigin, function]
  | some callee =>
    by_cases isName : callee.kind = .identifier
    · have named : (s.callOrigin bs t).lookedUp? = some (s.text callee) := by
        simp only [callOrigin, function, if_pos isName, Finding.lookedUp?]
      have known : bs'.lookup (s.text callee) = bs.lookup (s.text callee) := (agree _ named).symm
      simp only [callOrigin, function, if_pos isName, Bindings.definitionOf, known]
    · simp only [callOrigin, function, if_neg isName]

theorem callSteps_eq_of_agree {t : Tree}
    (agree : ∀ o rest, s.callSteps bs t = .record o :: rest →
      ∀ name, o.lookedUp? = some name → bs.AgreeAt bs' name) :
    s.callSteps bs' t = s.callSteps bs t := by
  unfold callSteps at agree ⊢
  by_cases tagged : (t.field? .arguments).any (·.kind = .template) = true
  · simp only [if_pos tagged]
  · simp only [if_neg tagged] at agree ⊢
    rw [s.callOrigin_eq_of_agree (agree _ _ rfl)]

/-- Only the plans of names and of calls look anything up. -/
theorem plan_cases (t : Tree) :
    (∀ bs, s.plan bs t = s.namePlan bs t) ∨ (∀ bs, s.plan bs t = { steps := s.callSteps bs t }) ∨
      ∀ bs bs', s.plan bs' t = s.plan bs t := by
  by_cases call : t.kind = .call
  · exact .inr (.inl fun bs => by simp only [plan, call])
  · by_cases name : t.kind = .identifier ∨ t.kind = .shorthandProperty ∨ t.kind = .undefined
    · refine .inl fun bs => ?_
      rcases name with name | name | name <;> simp only [plan, name]
    · refine .inr (.inr fun bs bs' => ?_)
      simp only [not_or] at name
      obtain ⟨_, _, _⟩ := name
      unfold plan
      split <;> first | rfl | contradiction

/-- **A plan looks up only the name in its first finding.** -/
theorem plan_eq_of_agree {t : Tree}
    (agree : ∀ o rest, (s.plan bs t).steps = .record o :: rest →
      ∀ name, o.lookedUp? = some name → bs.AgreeAt bs' name) :
    s.plan bs' t = s.plan bs t := by
  rcases s.plan_cases t with name | call | constant
  · rw [name] at agree ⊢
    rw [name, s.namePlan_eq_of_agree (agree _ _ rfl _ rfl)]
  · rw [call] at agree ⊢
    rw [call, s.callSteps_eq_of_agree agree]
  · exact constant bs bs'

/-! ## What a trace looks up -/

/-- The first finding of a plan is added by the trace that takes the plan, since that has room. -/
theorem mem_added_of_plan {t : Tree} {st : TraceState} (room : st.chain.isFull = false)
    (levels : Nat) {o : Origin} {rest : List Step}
    (plan : (s.plan bs t.unwrap).steps = .record o :: rest) :
    o ∈ st.added (s.follow bs (levels + 1) t st) := by
  have grows := s.follow_grows bs levels
  have from_first : (st.record o).Grows (s.follow bs (levels + 1) t st) := by
    cases once : (s.plan bs t.unwrap).once with
    | none =>
      rw [s.follow_plain bs room once, plan]
      exact Grows.run grows rest _
    | some guarded =>
      obtain ⟨name, more⟩ := guarded
      obtain ⟨named, rfl, -⟩ := s.plan_of_once bs once
      rw [named] at plan
      cases plan
      rw [s.follow_name bs room once]
      dsimp only
      split
      · exact Grows.refl _
      · exact (grows_mark _ _).trans (Grows.run grows more _)
  rw [added_trans (grows_record st o) from_first, added_record room]
  exact List.mem_append_left _ List.mem_cons_self

/-- **Following an expression** with two tables gives the same state, if the tables agree on the
names that were looked up with the first one. -/
theorem follow_eq_of_agree (levels : Nat) (t : Tree) (st : TraceState)
    (agree : bs.AgreeOn bs' (st.added (s.follow bs levels t st))) :
    s.follow bs' levels t st = s.follow bs levels t st := by
  induction levels generalizing t st with
  | zero => rfl
  | succ levels ih =>
    have grows := s.follow_grows bs levels
    cases full : st.chain.isFull with
    | true => rw [s.follow_of_isFull bs full, s.follow_of_isFull bs' full]
    | false =>
      have plan : s.plan bs' t.unwrap = s.plan bs t.unwrap :=
        s.plan_eq_of_agree fun o rest first =>
          agree o (s.mem_added_of_plan full levels first)
      cases once : (s.plan bs t.unwrap).once with
      | none =>
        rw [s.follow_plain bs full once] at agree ⊢
        rw [s.follow_plain bs' full (by rw [plan]; exact once), plan]
        exact run_eq_of_agree grows ih _ st agree
      | some guarded =>
        obtain ⟨name, more⟩ := guarded
        rw [s.follow_name bs full once] at agree ⊢
        rw [s.follow_name bs' full (by rw [plan]; exact once)]
        dsimp only at agree ⊢
        by_cases known : st.seen.contains name = true
        · rw [if_pos known, if_pos known]
        · rw [if_neg known] at agree
          rw [if_neg known, if_neg known]
          have marked := (grows_record st (.ident name (s.span t.unwrap))).trans (grows_mark _ name)
          exact run_eq_of_agree grows ih more _
            (agreeOn_right marked (Grows.run grows more _) agree)

/-! ## References -/

/-- Two tables know the same about the names that are listed by themselves. -/
def AgreeOnReferences (bs bs' : Bindings Tree) (refs : List Reference) : Prop :=
  ∀ r ∈ refs, r.path = [] → bs.AgreeAt bs' r.name

/-- What an expression reads depends only on a name that it lists by itself. -/
theorem reading_eq_of_agree {t : Tree}
    (agree : AgreeOnReferences bs bs' (s.reading bs t).refs) :
    s.reading bs' t = s.reading bs t := by
  by_cases name : t.kind = .identifier
  · have known : bs.AgreeAt bs' (s.text t) :=
      agree ⟨s.file, s.text t, [], s.span t⟩
        (by simp only [reading, name]; exact List.mem_cons_self) rfl
    have same : bs'.lookup (s.text t) = bs.lookup (s.text t) := known.symm
    simp only [reading, name, same]
  · unfold reading
    split <;> first | rfl | contradiction

/-- **References**: the recursion of the first list, in which each look is a reading. -/
theorem referencesOf_eq_of_agree (seen : List Text) (waiting : List (Tree × Nat))
    (agree : AgreeOnReferences bs bs' (s.referencesOf bs seen waiting)) :
    s.referencesOf bs' seen waiting = s.referencesOf bs seen waiting := by
  fun_induction s.referencesOf bs seen waiting with
  | case1 seen => rw [referencesOf]
  | case2 seen t waiting ih =>
    rw [referencesOf]
    exact ih agree
  | case3 seen t levels waiting r fresh entered passed =>
    have here : s.reading bs' t.unwrap = s.reading bs t.unwrap :=
      s.reading_eq_of_agree fun ref mem => agree ref (List.mem_append_left _ mem)
    have rest : AgreeOnReferences bs bs' _ := fun ref mem =>
      agree ref (List.mem_append_right _ mem)
    rw [referencesOf, here]
    congr 1
    split at rest
    · rename_i isFresh
      rw [if_pos isFresh, if_pos isFresh]
      exact entered rest
    · rename_i isStale
      rw [if_neg isStale, if_neg isStale]
      exact passed rest

/-! ## The law -/

/-- **A trace names every binding that it depended on.** If a second table knows the same about
each name that the findings of a trace over the first table show, a trace over it from the same
depth and in the same state ends in the same state: the same chain, the same mark for refused
findings and the same names seen. If it knows the same about each name that is listed as a reference
by itself, the references are the same. -/
theorem determined_by_findings (bs bs' : Bindings Tree) (t : Tree) :
    (∀ (depth : Int) (st : TraceState),
      bs.AgreeOn bs' (st.added (s.traceFrom bs depth t st)) →
        s.traceFrom bs' depth t st = s.traceFrom bs depth t st) ∧
    (AgreeOnReferences bs bs' (s.references bs t) → s.references bs' t = s.references bs t) := by
  refine ⟨fun depth st agree => ?_, fun agree => ?_⟩
  · exact s.follow_eq_of_agree (Trace.levels depth) t st agree
  · exact s.referencesOf_eq_of_agree [] _ agree

/-- The law for a trace of `x`, declared as `[x]`, and a second table that declares `y` as well. -/
theorem determined_by_findings_otherName :
    let source : Source := { file := "m.js", bytes := [0x78] }
    let name : Tree := { kind := .identifier, named := true, start := 0, stop := 1, fields := [],
                         children := [] }
    let list : Tree := { name with kind := .array, children := [name] }
    let small : Bindings Tree := [("x", { name := "x", definition := "m.js:1", init := some list })]
    let large : Bindings Tree := Bindings.record { name := "y", definition := "m.js:1" } small
    let start : TraceState := { chain := { limit := 3 } }
    small.AgreeOn large (start.added (source.traceFrom small 0 name start)) ∧
      AgreeOnReferences small large (source.references small name) ∧
      source.traceFrom large 0 name start = source.traceFrom small 0 name start ∧
      source.references large name = source.references small name := by
  intro source name list small large start
  have shown : start.added (source.traceFrom small 0 name start) =
      [.ident "x" "m.js:1", .init "m.js:1", .arrayElem 0 "m.js:1"] := by decide
  have listed : source.references small name = [⟨"m.js", "x", [], "m.js:1"⟩] := by
    decide +kernel
  have agree : small.AgreeOn large (start.added (source.traceFrom small 0 name start)) := by
    rw [shown]
    intro o mem known lookedUp
    simp only [List.mem_cons, List.not_mem_nil, or_false] at mem
    obtain rfl | rfl | rfl := mem <;> cases lookedUp
    rfl
  have agreeRefs : AgreeOnReferences small large (source.references small name) := by
    rw [listed]
    intro r mem _
    obtain rfl := List.mem_singleton.mp mem
    rfl
  have law := source.determined_by_findings small large name
  exact ⟨agree, agreeRefs, law.1 0 start agree, law.2 agreeRefs⟩

end Source

end JsxOrigin
