import JsxOrigin.Proofs.Provenance.Growth
import JsxOrigin.Rendering.Element

/-!
# Truncation

Several expressions can be traced onto one chain, each from a depth of its own and with names of its
own that count as seen. **The law** (`Source.answerAll_eq_take`): whatever the limit of the chain,
it holds the first findings of what the expressions yield one by one on chains that never fill up,
and if it refused a finding, there were more of these than the limit.

The two runs do not stay in step. A full chain keeps a trace from following any expression, so from
then on the names that have come up differ; but the steps that were already under way go on, and
each finding that they try to record is refused. `Cut` relates the two states before and after that
point: the names agree as long as there is room, and a refused finding is one that the whole run
has. It holds because a trace asks for the names that have come up only directly after it recorded
a name (`Source.follow_name`), when nothing has been skipped yet.
-/

namespace JsxOrigin

/-- An expression to be traced: from which depth on, and with which names seen before. -/
structure TraceRequest where
  expression : Tree
  depth : Int := 0
  seen : List Text := []

namespace Source

variable (s : Source) (bs : Bindings Tree)

/-- Traces the expression of a request onto a chain. -/
def answer (chain : Chain Origin) (r : TraceRequest) : Chain Origin :=
  (s.traceFrom bs r.depth r.expression { chain, seen := r.seen }).chain

/-- Traces the expressions of requests in turn onto one chain. -/
def answerAll (limit : Int) (requests : List TraceRequest) : Chain Origin :=
  requests.foldl (s.answer bs) { limit }

/-- The chain of an element answers its expressions in turn, from depth zero and with no names. -/
theorem element_chain (t : Tree) :
    (s.element bs t).chain =
      s.answerAll bs Chain.defaultLimit
        ((t.dataExpressions t.openingTag?).map fun expression => { expression }) := by
  rw [answerAll, List.foldl_map]
  rfl

end Source

/-! ## Cut states -/

/-- **A state is cut from a whole one**: it holds what came before the whole run and then what that
run recorded, up to its limit. -/
structure Cut (earlier : List Origin) (st whole : TraceState) : Prop where
  findings : st.chain.findings = (earlier ++ whole.chain.findings).take st.chain.limit.toNat
  seen : st.chain.isFull = false → st.seen = whole.seen
  refused : st.chain.truncated = true →
    st.chain.limit.toNat < (earlier ++ whole.chain.findings).length

namespace Cut

open TraceState

variable {earlier : List Origin} {st whole : TraceState}

/-- As long as there is room, nothing is cut off. -/
theorem findings_of_room (cut : Cut earlier st whole) (room : st.chain.isFull = false) :
    st.chain.findings = earlier ++ whole.chain.findings := by
  have shorter := congrArg List.length cut.findings
  rw [List.length_take] at shorter
  rw [Chain.not_isFull_iff] at room
  rw [cut.findings]
  exact List.take_of_length_le (by omega)

/-- A full state has as many findings as its limit allows. -/
theorem limit_le_of_full (cut : Cut earlier st whole) (full : st.chain.isFull = true) :
    st.chain.limit.toNat ≤ (earlier ++ whole.chain.findings).length := by
  have shorter := congrArg List.length cut.findings
  rw [List.length_take] at shorter
  rw [Chain.isFull_iff] at full
  omega

/-- What the whole run adds after a state was full is cut off. -/
theorem of_full (cut : Cut earlier st whole) (full : st.chain.isFull = true) {whole' : TraceState}
    (grows : whole.Grows whole') : Cut earlier st whole' := by
  have enough := cut.limit_le_of_full full
  obtain ⟨added, same⟩ := grows.findings
  have longer : earlier ++ whole'.chain.findings =
      (earlier ++ whole.chain.findings) ++ added := by
    rw [← same, List.append_assoc]
  refine ⟨?_, fun room => ?_, fun truncated => ?_⟩
  · rw [longer, List.take_append_of_le_length enough]
    exact cut.findings
  · rw [full] at room
    cases room
  · have more := cut.refused truncated
    rw [longer, List.length_append]
    omega

/-- **One step**: a finding that both runs record keeps a state cut, also if it is refused. -/
theorem record (cut : Cut earlier st whole) (unbounded : whole.chain.isFull = false) (o : Origin) :
    Cut earlier (st.record o) (whole.record o) := by
  have added : (whole.record o).chain.findings = whole.chain.findings ++ [o] := by
    rw [chain_record, Chain.append_of_not_isFull unbounded]
  cases full : st.chain.isFull with
  | true =>
    have enough := cut.limit_le_of_full full
    have kept : (st.record o).chain = { st.chain with truncated := true } := by
      rw [chain_record, Chain.append_of_isFull full]
    refine ⟨?_, fun room => ?_, fun _ => ?_⟩
    · rw [kept, added, ← List.append_assoc, List.take_append_of_le_length enough]
      exact cut.findings
    · rw [kept] at room
      exact absurd full (by rw [show st.chain.isFull = false from room]; exact Bool.false_ne_true)
    · rw [kept, added, ← List.append_assoc, List.length_append, List.length_singleton]
      exact Nat.lt_succ_of_le enough
  | false =>
    have all := cut.findings_of_room full
    have grown : (st.record o).chain =
        { st.chain with findings := st.chain.findings ++ [o] } := by
      rw [chain_record, Chain.append_of_not_isFull full]
    refine ⟨?_, fun _ => cut.seen full, fun truncated => ?_⟩
    · rw [Chain.not_isFull_iff] at full
      have short : (st.chain.findings ++ [o]).length ≤ st.chain.limit.toNat := by
        rw [List.length_append, List.length_singleton]
        omega
      rw [grown, added, ← List.append_assoc, ← all]
      exact (List.take_of_length_le short).symm
    · rw [grown] at truncated ⊢
      have more := cut.refused truncated
      rw [added, ← List.append_assoc, List.length_append]
      exact Nat.lt_add_right _ more

/-- Marking a name keeps a state cut. -/
theorem mark (cut : Cut earlier st whole) (name : Text) :
    Cut earlier (st.mark name) (whole.mark name) := by
  refine ⟨?_, fun room => ?_, fun truncated => ?_⟩
  · rw [chain_mark, chain_mark]
    exact cut.findings
  · rw [chain_mark] at room
    exact seen_mark_congr (cut.seen room) name
  · rw [chain_mark] at truncated
    rw [chain_mark, chain_mark]
    exact cut.refused truncated

/-- **The steps of a plan** keep a state cut, if following an expression does and the whole run
never fills its chain. -/
theorem run {follow : Tree → TraceState → TraceState}
    (grows : ∀ t st, TraceState.Grows st (follow t st))
    (kept : ∀ t st whole, Cut earlier st whole → (follow t whole).chain.isFull = false →
      Cut earlier (follow t st) (follow t whole))
    (steps : List Step) (cut : Cut earlier st whole)
    (unbounded : (whole.run follow steps).chain.isFull = false) :
    Cut earlier (st.run follow steps) (whole.run follow steps) := by
  induction steps generalizing st whole with
  | nil => exact cut
  | cons step steps ih =>
    cases step with
    | record o =>
      have room : whole.chain.isFull = false :=
        ((grows_record whole o).trans (Grows.run grows steps _)).not_isFull unbounded
      exact ih (cut.record room o) unbounded
    | follow t =>
      have room : (follow t whole).chain.isFull = false :=
        (Grows.run grows steps _).not_isFull unbounded
      exact ih (kept t st whole cut room) unbounded

end Cut

namespace Source

open TraceState

variable (s : Source) (bs : Bindings Tree)

/-- **Following an expression keeps a state cut.** -/
theorem follow_cut {earlier : List Origin} (levels : Nat) (t : Tree) (st whole : TraceState)
    (cut : Cut earlier st whole)
    (unbounded : (s.follow bs levels t whole).chain.isFull = false) :
    Cut earlier (s.follow bs levels t st) (s.follow bs levels t whole) := by
  induction levels generalizing t st whole with
  | zero => exact cut
  | succ levels ih =>
    have grows := s.follow_grows bs levels
    have wholeRoom := (s.follow_grows bs (levels + 1) t whole).not_isFull unbounded
    cases full : st.chain.isFull with
    | true =>
      rw [s.follow_of_isFull bs full]
      exact cut.of_full full (s.follow_grows bs (levels + 1) t whole)
    | false =>
      cases once : (s.plan bs t.unwrap).once with
      | none =>
        rw [s.follow_plain bs wholeRoom once] at unbounded ⊢
        rw [s.follow_plain bs full once]
        exact cut.run grows ih _ unbounded
      | some guarded =>
        obtain ⟨name, more⟩ := guarded
        rw [s.follow_name bs wholeRoom once] at unbounded ⊢
        rw [s.follow_name bs full once, cut.seen full]
        have recorded := cut.record wholeRoom (.ident name (s.span t.unwrap))
        dsimp only at unbounded ⊢
        -- there was room before the name was recorded, so both runs still know the same names
        by_cases known : whole.seen.contains name = true
        · rw [if_pos known, if_pos known]
          exact recorded
        · rw [if_neg known] at unbounded
          rw [if_neg known, if_neg known]
          exact (recorded.mark name).run grows ih _ unbounded

/-! ## Several expressions on one chain -/

/-- Answering a request keeps a chain cut: after the answer, what came before includes it. -/
theorem answer_cut (chain : Chain Origin) (earlier : List Origin) (r : TraceRequest) (own : Int)
    (cut : chain.findings = earlier.take chain.limit.toNat)
    (refused : chain.truncated = true → chain.limit.toNat < earlier.length)
    (unbounded : (s.answer bs { limit := own } r).isFull = false) :
    Cut earlier (s.traceFrom bs r.depth r.expression { chain, seen := r.seen })
      (s.traceFrom bs r.depth r.expression { chain := { limit := own }, seen := r.seen }) := by
  refine s.follow_cut bs _ _ _ _ ⟨?_, fun _ => rfl, fun truncated => ?_⟩ unbounded
  · rw [List.append_nil]
    exact cut
  · rw [List.append_nil]
    exact refused truncated

/-- Answering requests after others: the chain is cut from all findings, earlier ones first. -/
theorem foldl_answer_cut (own : TraceRequest → Int) (requests : List TraceRequest)
    (unbounded : ∀ r ∈ requests, (s.answer bs { limit := own r } r).isFull = false)
    (chain : Chain Origin) (earlier : List Origin)
    (cut : chain.findings = earlier.take chain.limit.toNat)
    (refused : chain.truncated = true → chain.limit.toNat < earlier.length) :
    let all := earlier ++ requests.flatMap fun r => (s.answer bs { limit := own r } r).findings
    let answered := requests.foldl (s.answer bs) chain
    answered.findings = all.take chain.limit.toNat ∧
      (answered.truncated = true → chain.limit.toNat < all.length) := by
  induction requests generalizing chain earlier with
  | nil =>
    rw [List.flatMap_nil, List.append_nil]
    exact ⟨cut, refused⟩
  | cons r requests ih =>
    have step := s.answer_cut bs chain earlier r (own r) cut refused
      (unbounded r List.mem_cons_self)
    have limit : (s.answer bs chain r).limit = chain.limit :=
      (s.follow_grows bs _ r.expression { chain, seen := r.seen }).limit
    have rest := ih (fun r' h => unbounded r' (List.mem_cons_of_mem _ h)) (s.answer bs chain r)
      (earlier ++ (s.answer bs { limit := own r } r).findings) step.findings step.refused
    rw [limit, List.append_assoc] at rest
    exact rest

/-! ## Limits that are never reached -/

theorem length_record_le (st : TraceState) (o : Origin) :
    (st.record o).chain.findings.length ≤ st.chain.findings.length + 1 := by
  rw [chain_record, Chain.append]
  split
  · exact Nat.le_succ _
  · exact Nat.le_of_eq (by rw [List.length_append, List.length_singleton])

/-- The steps of a plan add a bounded number of findings if following an expression does. -/
theorem run_length_le {follow : Tree → TraceState → TraceState}
    (bounded : ∀ t, ∃ n, ∀ st, (follow t st).chain.findings.length ≤
      st.chain.findings.length + n) (steps : List Step) :
    ∃ n, ∀ st : TraceState, (st.run follow steps).chain.findings.length ≤
      st.chain.findings.length + n := by
  induction steps with
  | nil => exact ⟨0, fun st => Nat.le_refl _⟩
  | cons step steps ih =>
    obtain ⟨n, rest⟩ := ih
    cases step with
    | record o =>
      refine ⟨n + 1, fun st => ?_⟩
      have := length_record_le st o
      have := rest (st.record o)
      rw [run_record]
      omega
    | follow t =>
      obtain ⟨m, first⟩ := bounded t
      refine ⟨m + n, fun st => ?_⟩
      have := first st
      have := rest (follow t st)
      rw [run_follow]
      omega

/-- An expression has a bounded number of findings, whatever the state. -/
theorem follow_length_le (levels : Nat) (t : Tree) :
    ∃ n, ∀ st, (s.follow bs levels t st).chain.findings.length ≤ st.chain.findings.length + n := by
  induction levels generalizing t with
  | zero => exact ⟨0, fun st => Nat.le_refl _⟩
  | succ levels ih =>
    cases once : (s.plan bs t.unwrap).once with
    | none =>
      obtain ⟨n, steps⟩ := run_length_le ih (s.plan bs t.unwrap).steps
      refine ⟨n, fun st => ?_⟩
      cases full : st.chain.isFull with
      | true => rw [s.follow_of_isFull bs full]; exact Nat.le_add_right _ _
      | false => rw [s.follow_plain bs full once]; exact steps st
    | some guarded =>
      obtain ⟨name, more⟩ := guarded
      obtain ⟨n, expanded⟩ := run_length_le ih more
      refine ⟨n + 1, fun st => ?_⟩
      cases full : st.chain.isFull with
      | true => rw [s.follow_of_isFull bs full]; exact Nat.le_add_right _ _
      | false =>
        rw [s.follow_name bs full once]
        have one := length_record_le st (.ident name (s.span t.unwrap))
        dsimp only
        split
        · omega
        · have more := expanded ((st.record (.ident name (s.span t.unwrap))).mark name)
          rw [chain_mark] at more
          omega

/-- Every limit from some number on is never reached by the findings of a request. -/
theorem exists_unreached_limit (r : TraceRequest) :
    ∃ bound : Int, ∀ own ≥ bound, (s.answer bs { limit := own } r).isFull = false := by
  obtain ⟨n, bounded⟩ := s.follow_length_le bs (Trace.levels r.depth) r.expression
  refine ⟨n + 1, fun own large => ?_⟩
  have short : (s.answer bs { limit := own } r).findings.length ≤ 0 + n :=
    bounded { chain := { limit := own }, seen := r.seen }
  have limit : (s.answer bs { limit := own } r).limit = own :=
    (s.follow_grows bs _ r.expression { chain := { limit := own }, seen := r.seen }).limit
  rw [Chain.not_isFull_iff, limit]
  omega

/-- **Truncation is a prefix.** Expressions are traced in turn onto one chain with any limit. For
each of them there are limits that it never reaches on a chain of its own, and whichever of these
are taken, the chain holds the first findings of all these chains one after another, up to its
limit. A finding was refused only if there are more of them, and a chain that is shorter than its
limit holds them all. -/
theorem answerAll_eq_take (requests : List TraceRequest) (limit : Int) :
    (∀ r ∈ requests, ∃ bound : Int, ∀ own ≥ bound,
      (s.answer bs { limit := own } r).isFull = false) ∧
    ∀ own : TraceRequest → Int,
      (∀ r ∈ requests, (s.answer bs { limit := own r } r).isFull = false) →
      let all := requests.flatMap fun r => (s.answer bs { limit := own r } r).findings
      let chain := s.answerAll bs limit requests
      chain.findings = all.take (max limit 0).toNat ∧
        (chain.truncated = true → (max limit 0).toNat < all.length) ∧
        ((chain.findings.length : Int) < limit → chain.findings = all) := by
  refine ⟨fun r _ => s.exists_unreached_limit bs r, fun own unbounded => ?_⟩
  obtain ⟨findings, refused⟩ := s.foldl_answer_cut bs own requests unbounded { limit } []
    List.take_nil.symm (fun truncated => by cases truncated)
  have positive : (max limit 0).toNat = limit.toNat := by omega
  rw [List.nil_append] at findings refused
  rw [positive]
  refine ⟨findings, refused, fun short => ?_⟩
  change (s.answerAll bs limit requests).findings = List.take limit.toNat _ at findings
  have length := congrArg List.length findings
  rw [List.length_take] at length
  rw [findings]
  exact List.take_of_length_le (by omega)

/-- The law on a chain of three findings for two traces of `x`, where `x` is declared as `[x]`. -/
theorem answerAll_eq_take_selfReference :
    let source : Source := { file := "m.js", bytes := [0x78] }
    let name : Tree := { kind := .identifier, named := true, start := 0, stop := 1, fields := [],
                         children := [] }
    let list : Tree := { name with kind := .array, children := [name] }
    let table : Bindings Tree := [("x", { name := "x", definition := "m.js:1", init := some list })]
    let request : TraceRequest := { expression := name }
    let alone := source.answer table { limit := 9 } request
    (∀ r ∈ [request, request], (source.answer table { limit := 9 } r).isFull = false) ∧
      (source.answerAll table 3 [request, request]).findings =
        (alone.findings ++ alone.findings).take 3 ∧
      alone.findings.length = 4 := by
  refine ⟨?_, ?_, ?_⟩
  · decide
  · exact (((answerAll_eq_take _ _ [_, _] 3).2 (fun _ => 9) (by decide)).1).trans (by decide)
  · decide

end Source

end JsxOrigin
