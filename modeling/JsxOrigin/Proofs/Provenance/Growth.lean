import JsxOrigin.Provenance.Trace

/-!
# How a trace grows

A trace only ever adds to its state: the limit of the chain stays, and the findings of the chain
before are the first findings of the chain after. **The law** (`Source.follow_grows`) holds for
every expression and every number of levels, whatever the bindings. It follows the recursion of a
trace: what one step does (`grows_record`), what the steps of a plan do (`Grows.run`), and from
these what following an expression does.

A chain that was full stays full (`Grows.isFull`), which is all that the bound needs to know.
-/

namespace JsxOrigin

namespace Chain

variable {α : Type}

@[simp] theorem limit_append (c : Chain α) (a : α) : (c.append a).limit = c.limit := by
  unfold append
  split <;> rfl

theorem findings_prefix_append (c : Chain α) (a : α) : c.findings <+: (c.append a).findings := by
  unfold append
  split
  · exact List.prefix_refl _
  · exact List.prefix_append _ _

theorem isFull_iff {c : Chain α} : c.isFull = true ↔ c.limit ≤ c.findings.length := by
  simp only [isFull, decide_eq_true_eq]

theorem not_isFull_iff {c : Chain α} : c.isFull = false ↔ (c.findings.length : Int) < c.limit := by
  simp only [isFull, decide_eq_false_iff_not, Int.not_le]

end Chain

namespace TraceState

/-! ## Steps of a run -/

variable {follow : Tree → TraceState → TraceState}

@[simp] theorem run_record (o : Origin) (steps : List Step) (st : TraceState) :
    st.run follow (.record o :: steps) = (st.record o).run follow steps := rfl

@[simp] theorem run_follow (t : Tree) (steps : List Step) (st : TraceState) :
    st.run follow (.follow t :: steps) = (follow t st).run follow steps := rfl

@[simp] theorem chain_record (st : TraceState) (o : Origin) :
    (st.record o).chain = st.chain.append o := rfl

@[simp] theorem chain_mark (st : TraceState) (name : Text) : (st.mark name).chain = st.chain := by
  unfold mark
  split <;> rfl

theorem seen_mark_congr {st st' : TraceState} (h : st.seen = st'.seen) (name : Text) :
    (st.mark name).seen = (st'.mark name).seen := by
  unfold mark
  rw [h]
  split
  · exact h
  · rfl

/-! ## Growth -/

/-- **A state grows into another one**: the limit stays and findings are only added at the end. -/
structure Grows (st st' : TraceState) : Prop where
  limit : st'.chain.limit = st.chain.limit
  findings : st.chain.findings <+: st'.chain.findings

theorem Grows.refl (st : TraceState) : st.Grows st := ⟨rfl, List.prefix_refl _⟩

theorem Grows.trans {st st' st'' : TraceState} (h : st.Grows st') (h' : st'.Grows st'') :
    st.Grows st'' :=
  ⟨h'.limit.trans h.limit, h.findings.trans h'.findings⟩

theorem grows_record (st : TraceState) (o : Origin) : st.Grows (st.record o) :=
  ⟨Chain.limit_append _ _, Chain.findings_prefix_append _ _⟩

theorem grows_mark (st : TraceState) (name : Text) : st.Grows (st.mark name) :=
  ⟨by rw [chain_mark], by simp [chain_mark]⟩

/-- A chain that is full stays full. -/
theorem Grows.isFull {st st' : TraceState} (h : st.Grows st') (full : st.chain.isFull = true) :
    st'.chain.isFull = true := by
  have longer := h.findings.length_le
  rw [Chain.isFull_iff] at full ⊢
  rw [h.limit]
  omega

theorem Grows.not_isFull {st st' : TraceState} (h : st.Grows st')
    (open' : st'.chain.isFull = false) : st.chain.isFull = false := by
  cases full : st.chain.isFull with
  | false => rfl
  | true => rw [h.isFull full] at open'; cases open'

/-- The steps of a plan let a state grow if following an expression does. -/
theorem Grows.run (grows : ∀ t st, Grows st (follow t st)) (steps : List Step) (st : TraceState) :
    st.Grows (st.run follow steps) := by
  induction steps generalizing st with
  | nil => exact Grows.refl st
  | cons step steps ih =>
    cases step with
    | record o => exact (grows_record st o).trans (ih _)
    | follow t => exact (grows t st).trans (ih _)

end TraceState

namespace Source

open TraceState

variable (s : Source) (bs : Bindings Tree)

/-! ## Following an expression -/

theorem follow_of_isFull {st : TraceState} (full : st.chain.isFull = true) (levels : Nat)
    (t : Tree) : s.follow bs levels t st = st := by
  cases levels with
  | zero => rfl
  | succ levels => rw [follow, if_pos full]

/-- Following an expression whose plan sets nothing apart takes the steps of the plan. -/
theorem follow_plain {st : TraceState} (room : st.chain.isFull = false) {t : Tree}
    (plain : (s.plan bs t.unwrap).once = none) (levels : Nat) :
    s.follow bs (levels + 1) t st =
      st.run (s.follow bs levels) (s.plan bs t.unwrap).steps := by
  rw [follow, if_neg (by rw [room]; exact Bool.false_ne_true)]
  simp only [plain]

/-- Only the plan of a name sets steps apart: those that the name is expanded to. -/
theorem plan_of_once {t : Tree} {name : Text} {more : List Step}
    (guarded : (s.plan bs t).once = some (name, more)) :
    s.plan bs t = s.namePlan bs t ∧ name = s.text t ∧ more = s.expansion bs name := by
  have plan : s.plan bs t = s.namePlan bs t := by
    unfold plan at guarded ⊢
    split at guarded <;> first | rfl | cases guarded
  rw [plan] at guarded
  cases guarded
  exact ⟨plan, rfl, rfl⟩

/-- Following a name records it, and expands it unless it has come up before. -/
theorem follow_name {st : TraceState} (room : st.chain.isFull = false) {t : Tree} {name : Text}
    {more : List Step} (guarded : (s.plan bs t.unwrap).once = some (name, more)) (levels : Nat) :
    s.follow bs (levels + 1) t st =
      let recorded := st.record (.ident name (s.span t.unwrap))
      if st.seen.contains name then recorded
      else (recorded.mark name).run (s.follow bs levels) more := by
  obtain ⟨plan, rfl, -⟩ := s.plan_of_once bs guarded
  rw [follow, if_neg (by rw [room]; exact Bool.false_ne_true)]
  simp only [guarded]
  rw [plan]
  rfl

/-- **Following an expression only adds to a state.** -/
theorem follow_grows (levels : Nat) (t : Tree) (st : TraceState) :
    st.Grows (s.follow bs levels t st) := by
  induction levels generalizing t st with
  | zero => exact Grows.refl st
  | succ levels ih =>
    cases full : st.chain.isFull with
    | true => rw [s.follow_of_isFull bs full]; exact Grows.refl st
    | false =>
      cases once : (s.plan bs t.unwrap).once with
      | none => rw [s.follow_plain bs full once]; exact Grows.run ih _ st
      | some guarded =>
        obtain ⟨name, more⟩ := guarded
        rw [s.follow_name bs full once]
        have recorded := grows_record st (.ident name (s.span t.unwrap))
        dsimp only
        split
        · exact recorded
        · exact recorded.trans ((grows_mark _ name).trans (Grows.run ih more _))

end Source

end JsxOrigin
