import JsxOrigin.Proofs.Provenance.Growth
import JsxOrigin.Proofs.Syntax.Nodes
import JsxOrigin.Proofs.Table
import JsxOrigin.Rendering.Analysis

/-!
# Spans are places of nodes

Every span that the analysis of a module gives is the span of a node of its tree. **The law**
(`SourceModule.analyse_spans`): it is the shown path, a colon, and a line that is one more than the
number of line feeds before some node, so it is never line zero and never a line after the last.

Spans are made in five passes: over the declarations, over the nodes of the graph, in a trace, in
the list of references and in the reports of elements. Each pass gets the nodes that it asks a span
of from the tree or from the initializer of a binding, which is a node of the tree too; and the
spans that a trace copies from a binding were made in the first pass.
-/

namespace JsxOrigin

/-! ## The spans of an analysis -/

/-- The spans of a binding: of its name, and of the body of a function. -/
def Binding.spans {ι : Type} (b : Binding ι) : List Text := b.definition :: b.body.toList

/-- The spans of the rows of a graph. -/
def ModuleGraph.spans {α : Type} (g : ModuleGraph α) : List α :=
  g.imports.map (·.span) ++ g.exports.map (·.span) ++ g.reexports.map (·.span) ++
    g.defs.map (·.span) ++ g.mutations.map (·.span) ++ g.literals.map (·.span)

/-- All spans of a finding. -/
def Finding.spans {τ ι : Type} : Finding τ ι → List τ
  | call _ callsite calleeSpan definition => callsite :: calleeSpan :: definition.toList
  | o => o.span?.toList

/-- The spans in the report of an element. -/
def Element.spans (e : Element) : List Text :=
  e.span :: (e.chain.findings.flatMap Finding.spans ++ e.candidates.map (·.target) ++
    e.refs.map (·.span))

/-- The spans of an analysis. Those of a graph are JSON values. -/
def Analysis.spans (a : Analysis) : List Json :=
  (a.bindings.flatMap fun (_, b) => b.spans).map .str ++ a.graph.spans ++
    (a.elements.flatMap Element.spans).map .str

/-- Whether a span is that of a node of a tree. -/
def Source.Locates (s : Source) (root : Tree) (span : Text) : Prop :=
  ∃ n ∈ root.nodes, span = s.span n

/-- Whether a binding points into a tree: its spans are places there, its initializer is a node. -/
structure Binding.Located (s : Source) (root : Tree) (b : Binding Tree) : Prop where
  spans : ∀ span ∈ b.spans, s.Locates root span
  init : ∀ t, b.init = some t → t ∈ root.nodes

/-- Whether all bindings of a table point into a tree. -/
def Bindings.Located (s : Source) (root : Tree) (bs : Bindings Tree) : Prop :=
  ∀ e ∈ bs, e.2.Located s root

/-- Whether a step of a trace stays in a tree: it records places there or follows a node. -/
def Step.Located (s : Source) (root : Tree) : Step → Prop
  | record o => ∀ span ∈ o.spans, s.Locates root span
  | follow t => t ∈ root.nodes

namespace Source

open JsxOrigin.Tree

variable {s : Source} {root t : Tree}

theorem locates_span (mem : t ∈ root.nodes) : s.Locates root (s.span t) := ⟨t, mem, rfl⟩

theorem locates_of_mem_singleton (mem : t ∈ root.nodes) :
    ∀ span ∈ [s.span t], s.Locates root span := by
  intro span listed
  obtain rfl := List.mem_singleton.mp listed
  exact locates_span mem

/-! ## Bindings -/

theorem clauseSpecifiers_mem (mem : t ∈ root.nodes) {x : ImportSpecifier}
    (listed : x ∈ s.clauseSpecifiers t) : x.1 ∈ root.nodes := by
  unfold clauseSpecifiers at listed
  split at listed
  · obtain rfl := List.mem_singleton.mp listed
    exact mem
  · obtain ⟨n, named, rfl⟩ := List.mem_map.mp listed
    exact mem_nodes_of_namedChild mem (List.mem_filter.mp named).1
  · obtain ⟨c, child, found⟩ := List.mem_filterMap.mp listed
    have inside := mem_nodes_of_namedChild mem child
    unfold namedSpecifier? at found
    split at found
    · obtain ⟨name, inField, rfl⟩ := Option.map_eq_some_iff.mp found
      cases renamed : c.field? .renamed with
      | none => exact mem_nodes_of_field inside inField
      | some other => exact mem_nodes_of_field inside renamed
    · cases found
  · cases listed

theorem importSpecifiers_mem (mem : t ∈ root.nodes) {x : ImportSpecifier}
    (listed : x ∈ s.importSpecifiers t) : x.1 ∈ root.nodes := by
  obtain ⟨clause, isClause, listed⟩ := List.mem_flatMap.mp listed
  obtain ⟨part, isPart, listed⟩ := List.mem_flatMap.mp listed
  have inside := mem_nodes_of_namedChild mem (List.mem_filter.mp isClause).1
  exact clauseSpecifiers_mem (mem_nodes_of_namedChild inside isPart) listed

theorem function_located (mem : t ∈ root.nodes) {name : Tree} (named : t.field? .name = some name) :
    Binding.Located s root
      { name := s.text name, definition := s.span name,
        body := (t.field? .body).map fun (body : Tree) => s.span body } := by
  refine ⟨fun span listed => ?_, fun u init => by cases init⟩
  rcases List.mem_cons.mp listed with rfl | body
  · exact locates_span (mem_nodes_of_field mem named)
  · obtain ⟨n, inBody, rfl⟩ := Option.map_eq_some_iff.mp (Option.mem_toList.mp body)
    exact locates_span (mem_nodes_of_field mem inBody)

/-- What a node declares points into the tree of the node. -/
theorem declared_located (mem : t ∈ root.nodes) {b : Binding Tree}
    (declares : b ∈ s.declared t) : b.Located s root := by
  unfold declared at declares
  split at declares
  case h_1 =>
    split at declares
    · rename_i name named
      split at declares
      · obtain rfl := List.mem_singleton.mp declares
        exact ⟨locates_of_mem_singleton (mem_nodes_of_field mem named),
          fun u init => mem_nodes_of_field mem init⟩
      · cases declares
    · cases declares
  case h_2 | h_3 =>
    split at declares
    · rename_i name named
      obtain rfl := List.mem_singleton.mp declares
      exact function_located mem named
    · cases declares
  case h_4 =>
    split at declares
    · obtain ⟨⟨n, imported⟩, listed, rfl⟩ := List.mem_map.mp declares
      exact ⟨locates_of_mem_singleton (importSpecifiers_mem mem listed),
        fun u init => by cases init⟩
    · cases declares
  case h_5 => cases declares

/-- Recording bindings that point into a tree keeps a table in that tree. -/
theorem foldl_record_located (declared : List (Binding Tree))
    (located : ∀ b ∈ declared, b.Located s root) (bs : Bindings Tree)
    (start : bs.Located s root) :
    Bindings.Located s root (declared.foldl (fun bs b => Bindings.record b bs) bs) := by
  induction declared generalizing bs with
  | nil => exact start
  | cons b declared ih =>
    refine ih (fun b' h => located b' (List.mem_cons_of_mem _ h)) _ fun e mem => ?_
    rcases Table.mem_of_mem_set mem with rfl | earlier
    · exact located b List.mem_cons_self
    · exact start e earlier

/-- **The bindings of a module** point into its tree. -/
theorem bindings_located (s : Source) (root : Tree) : (s.bindings root).Located s root := by
  refine foldl_record_located _ (fun b declares => ?_) [] (fun e mem => by cases mem)
  obtain ⟨t, visited, declares⟩ := List.mem_flatMap.mp declares
  exact declared_located (mem_nodes_of_mem_walk_root visited) declares

/-! ## Plans -/

theorem record_located (mem : t ∈ root.nodes) {o : Origin} (place : o.spans = [s.span t]) :
    (Step.record o).Located s root := by
  intro span listed
  rw [place] at listed
  exact locates_of_mem_singleton mem span listed

theorem followField_located (mem : t ∈ root.nodes) (f : Field) :
    ∀ step ∈ Step.followField t f, step.Located s root := by
  intro step listed
  obtain ⟨c, inField, rfl⟩ := List.mem_map.mp listed
  exact mem_nodes_of_field mem (Option.mem_toList.mp inField)

theorem followArguments_located (mem : t ∈ root.nodes) (f : Field) :
    ∀ step ∈ Step.followArguments (t.field? f), step.Located s root := by
  intro step listed
  unfold Step.followArguments at listed
  split at listed
  · cases listed
  · rename_i list inField
    obtain ⟨c, argument, rfl⟩ := List.mem_map.mp listed
    exact mem_nodes_of_expression (mem_nodes_of_field mem inField) (List.mem_filter.mp argument).1

theorem accessSteps_located (mem : t ∈ root.nodes) :
    ∀ step ∈ s.accessSteps t, step.Located s root := by
  intro step listed
  unfold accessSteps at listed
  split at listed
  · obtain rfl := List.mem_singleton.mp listed
    exact record_located mem rfl
  · rcases List.mem_append.mp listed with listed | listed
    · rcases List.mem_cons.mp listed with rfl | listed
      · exact record_located mem rfl
      · exact followField_located mem _ step listed
    · split at listed
      · exact followField_located mem _ step listed
      · cases listed

/-- Where a function is defined is a place that a binding gives. -/
theorem definitionOf_located {bs : Bindings Tree} (located : bs.Located s root) {name span : Text}
    (known : bs.definitionOf name = some span) : s.Locates root span := by
  obtain ⟨b, found, rfl⟩ := Option.map_eq_some_iff.mp known
  have spans := (located _ (Table.mem_of_get? found)).spans
  cases body : b.body.filter (!·.isEmpty) with
  | none => exact spans _ List.mem_cons_self
  | some place =>
    have given := (Option.filter_eq_some_iff.mp body).1
    exact spans place (List.mem_cons_of_mem _ (Option.mem_toList.mpr given))

theorem callOrigin_located {bs : Bindings Tree} (located : bs.Located s root)
    (mem : t ∈ root.nodes) : (Step.record (s.callOrigin bs t)).Located s root := by
  have here := locates_span (s := s) mem
  have two : ∀ {span place : Text}, s.Locates root place → span ∈ [s.span t, place] →
      s.Locates root span := by
    intro span place found listed
    rcases List.mem_cons.mp listed with rfl | listed
    · exact here
    · obtain rfl := List.mem_singleton.mp listed
      exact found
  intro span listed
  unfold callOrigin at listed
  split at listed
  · rename_i callee isCallee
    have calleeHere := locates_span (s := s) (mem_nodes_of_unwrapped mem isCallee)
    split at listed
    · simp only [Finding.spans, List.mem_cons, Option.mem_toList] at listed
      rcases listed with rfl | rfl | known
      · exact here
      · exact calleeHere
      · exact definitionOf_located located known
    · split at listed
      · exact two calleeHere listed
      · exact two here listed
  · exact two here listed

theorem callSteps_located {bs : Bindings Tree} (located : bs.Located s root)
    (mem : t ∈ root.nodes) : ∀ step ∈ s.callSteps bs t, step.Located s root := by
  intro step listed
  unfold callSteps at listed
  dsimp only at listed
  split at listed
  · obtain rfl := List.mem_singleton.mp listed
    exact record_located mem rfl
  · rcases List.mem_cons.mp listed with rfl | listed
    · exact callOrigin_located located mem
    · exact followArguments_located mem _ step listed

theorem constructSteps_located (mem : t ∈ root.nodes) :
    ∀ step ∈ s.constructSteps t, step.Located s root := by
  intro step listed
  rcases List.mem_cons.mp listed with rfl | listed
  · exact record_located mem rfl
  · exact followArguments_located mem _ step listed

theorem templateSteps_located (mem : t ∈ root.nodes) :
    ∀ step ∈ s.templateSteps t, step.Located s root := by
  intro step listed
  rcases List.mem_cons.mp listed with rfl | listed
  · exact record_located mem rfl
  · obtain ⟨c, child, listed⟩ := List.mem_flatMap.mp listed
    obtain ⟨e, expression, rfl⟩ := List.mem_map.mp listed
    have inside := mem_nodes_of_namedChild mem (List.mem_filter.mp child).1
    exact mem_nodes_of_expression inside expression

theorem propertySteps_located (mem : t ∈ root.nodes) :
    ∀ step ∈ s.propertySteps t, step.Located s root := by
  intro step listed
  unfold propertySteps at listed
  split at listed
  · split at listed
    · rename_i key inField
      split at listed
      · rcases List.mem_cons.mp listed with rfl | listed
        · exact record_located (mem_nodes_of_field mem inField) rfl
        · exact followField_located mem _ step listed
      · cases listed
    · cases listed
  · rcases List.mem_cons.mp listed with rfl | listed
    · exact record_located mem rfl
    · obtain rfl := List.mem_singleton.mp listed
      exact mem
  · cases listed

theorem arraySteps_located (mem : t ∈ root.nodes) :
    ∀ step ∈ s.arraySteps t, step.Located s root := by
  intro step listed
  obtain ⟨e, element, listed⟩ := List.mem_flatMap.mp listed
  have inside := mem_nodes_of_element mem (List.mem_filter.mp element).1
  rcases List.mem_cons.mp listed with rfl | listed
  · exact record_located inside rfl
  · obtain rfl := List.mem_singleton.mp listed
    exact inside

/-- What a name is expanded to stays in the tree into which the bindings point. -/
theorem expansion_located {bs : Bindings Tree} (located : bs.Located s root) (name : Text) :
    ∀ step ∈ s.expansion bs name, step.Located s root := by
  intro step listed
  unfold expansion at listed
  split at listed
  · cases listed
  · rename_i b found
    have binding := located _ (Table.mem_of_get? found)
    rcases List.mem_append.mp listed with listed | listed
    · split at listed
      · rename_i u init
        have inside := binding.init u init
        rcases List.mem_cons.mp listed with rfl | listed
        · exact record_located inside rfl
        · obtain rfl := List.mem_singleton.mp listed
          exact inside
      · cases listed
    · split at listed
      · obtain rfl := List.mem_singleton.mp listed
        intro span place
        obtain rfl := List.mem_singleton.mp place
        exact binding.spans _ List.mem_cons_self
      · cases listed

/-- **The plan of a node** stays in its tree. -/
theorem plan_located {bs : Bindings Tree} (located : bs.Located s root) (mem : t ∈ root.nodes) :
    ∀ step ∈ (s.plan bs t).steps, step.Located s root := by
  have one : ∀ {o : Origin}, o.spans = [s.span t] → ∀ step ∈ [Step.record o],
      step.Located s root := by
    intro o place step listed
    obtain rfl := List.mem_singleton.mp listed
    exact record_located mem place
  have operator : ∀ {name : Text} {rest : List Step}, (∀ step ∈ rest, step.Located s root) →
      ∀ step ∈ Step.record (.op name (s.span t)) :: rest, step.Located s root := by
    intro name rest inside step listed
    rcases List.mem_cons.mp listed with rfl | listed
    · exact record_located mem rfl
    · exact inside step listed
  have both : ∀ {first second : List Step}, (∀ step ∈ first, step.Located s root) →
      (∀ step ∈ second, step.Located s root) → ∀ step ∈ first ++ second, step.Located s root := by
    intro first second inFirst inSecond step listed
    exact (List.mem_append.mp listed).elim (inFirst step) (inSecond step)
  have field := followField_located (s := s) mem
  unfold plan
  dsimp only
  split
  -- literals
  case h_1 | h_2 | h_3 | h_4 | h_5 => exact one rfl
  -- names
  case h_6 | h_7 | h_8 => exact one rfl
  -- accesses, calls, constructor calls and templates
  case h_9 | h_10 => exact accessSteps_located mem
  case h_11 => exact callSteps_located located mem
  case h_12 => exact constructSteps_located mem
  case h_13 => exact templateSteps_located mem
  -- operators
  case h_14 => exact operator (both (field _) (field _))
  case h_15 | h_16 => exact operator (field _)
  case h_17 => exact operator (both (both (field _) (field _)) (field _))
  -- objects, arrays and whatever is not followed
  case h_18 =>
    intro step listed
    obtain ⟨c, child, listed⟩ := List.mem_flatMap.mp listed
    exact propertySteps_located (mem_nodes_of_namedChild mem child) step listed
  case h_19 => exact arraySteps_located mem
  case h_20 => exact one rfl

/-! ## Traces -/

/-- Whether all findings of a state are at places of a tree. -/
def StateLocated (s : Source) (root : Tree) (st : TraceState) : Prop :=
  ∀ o ∈ st.chain.findings, ∀ span ∈ o.spans, s.Locates root span

theorem record_stateLocated {st : TraceState} (start : StateLocated s root st) {o : Origin}
    (place : (Step.record o).Located s root) : StateLocated s root (st.record o) := by
  intro o' mem
  rw [TraceState.chain_record] at mem
  cases full : st.chain.isFull with
  | true =>
    rw [Chain.append_of_isFull full] at mem
    exact start o' mem
  | false =>
    rw [Chain.append_of_not_isFull full] at mem
    rcases List.mem_append.mp mem with earlier | new
    · exact start o' earlier
    · obtain rfl := List.mem_singleton.mp new
      exact place

/-- **The steps of a plan** keep the findings of a state in a tree, if following a node does. -/
theorem run_stateLocated {follow : Tree → TraceState → TraceState}
    (kept : ∀ t st, t ∈ root.nodes → StateLocated s root st → StateLocated s root (follow t st))
    (steps : List Step) (inside : ∀ step ∈ steps, step.Located s root) (st : TraceState)
    (start : StateLocated s root st) : StateLocated s root (st.run follow steps) := by
  induction steps generalizing st with
  | nil => exact start
  | cons step steps ih =>
    have here := inside step List.mem_cons_self
    have later : ∀ step' ∈ steps, step'.Located s root := fun step' h =>
      inside step' (List.mem_cons_of_mem _ h)
    cases step with
    | record o => exact ih later _ (record_stateLocated start here)
    | follow t => exact ih later _ (kept t st here start)

/-- **Following a node** keeps the findings of a state in its tree. -/
theorem follow_stateLocated {bs : Bindings Tree} (located : bs.Located s root) (levels : Nat)
    (t : Tree) (st : TraceState) (mem : t ∈ root.nodes) (start : StateLocated s root st) :
    StateLocated s root (s.follow bs levels t st) := by
  induction levels generalizing t st with
  | zero => exact start
  | succ levels ih =>
    have inside := unwrap_mem_nodes mem
    cases full : st.chain.isFull with
    | true =>
      rw [s.follow_of_isFull bs full]
      exact start
    | false =>
      cases once : (s.plan bs t.unwrap).once with
      | none =>
        rw [s.follow_plain bs full once]
        exact run_stateLocated ih _ (plan_located located inside) st start
      | some guarded =>
        obtain ⟨name, more⟩ := guarded
        obtain ⟨-, -, rfl⟩ := s.plan_of_once bs once
        rw [s.follow_name bs full once]
        have recorded : StateLocated s root (st.record (.ident name (s.span t.unwrap))) :=
          record_stateLocated start (record_located inside rfl)
        dsimp only
        split
        · exact recorded
        · refine run_stateLocated ih _ (expansion_located located name) _ ?_
          unfold StateLocated
          rw [TraceState.chain_mark]
          exact recorded

/-- Tracing nodes onto a chain in turn keeps its findings in their tree. -/
theorem foldl_traceOnto_located {bs : Bindings Tree} (located : bs.Located s root)
    (expressions : List Tree) (inside : ∀ e ∈ expressions, e ∈ root.nodes) (chain : Chain Origin)
    (start : ∀ o ∈ chain.findings, ∀ span ∈ o.spans, s.Locates root span) :
    ∀ o ∈ (expressions.foldl (s.traceOnto bs) chain).findings, ∀ span ∈ o.spans,
      s.Locates root span := by
  induction expressions generalizing chain with
  | nil => exact start
  | cons e expressions ih =>
    have traced := follow_stateLocated located (Trace.levels 0) e { chain }
      (inside e List.mem_cons_self) start
    exact ih (fun e' h => inside e' (List.mem_cons_of_mem _ h)) _ traced

/-! ## Candidates and references -/

/-- The places that are worth editing are places of findings. -/
theorem target_mem_spans {o : Origin} {c : Candidate Text} (mem : c ∈ Candidate.ofOrigin o) :
    c.target ∈ o.spans := by
  unfold Candidate.ofOrigin at mem
  cases o with
  | call callee callsite calleeSpan definition =>
    rcases List.mem_cons.mp mem with rfl | mem
    · exact List.mem_cons_self
    · obtain ⟨target, given, rfl⟩ := List.mem_map.mp mem
      exact List.mem_cons_of_mem _ (List.mem_cons_of_mem _ (List.mem_filter.mp given).1)
  | ident | op | unknown | foreign => cases mem
  | _ =>
    obtain rfl := List.mem_singleton.mp mem
    exact List.mem_cons_self

theorem reading_next_mem {bs : Bindings Tree} (located : bs.Located s root)
    (mem : t ∈ root.nodes) : ∀ u ∈ (s.reading bs t).next, u ∈ root.nodes := by
  intro u listed
  unfold reading at listed
  split at listed
  case h_1 =>
    obtain ⟨b, found, init⟩ := Option.bind_eq_some_iff.mp (Option.mem_toList.mp listed)
    exact (located _ (Table.mem_of_get? found)).init u init
  case h_2 | h_3 =>
    rcases List.mem_append.mp listed with listed | listed
    · exact mem_nodes_of_field mem (Option.mem_toList.mp listed)
    · by_cases subscript : t.kind = .subscript
      · rw [if_pos subscript] at listed
        exact mem_nodes_of_field mem (Option.mem_toList.mp listed)
      · rw [if_neg subscript] at listed
        cases listed
  case h_4 =>
    rcases List.mem_append.mp listed with listed | listed
    · have callee := (Option.filter_eq_some_iff.mp (Option.mem_toList.mp listed)).1
      exact mem_nodes_of_unwrapped mem callee
    · split at listed
      · rename_i list inField
        split at listed
        · exact mem_nodes_of_expression (mem_nodes_of_field mem inField)
            (List.mem_filter.mp listed).1
        · cases listed
      · cases listed
  case h_5 => cases listed

theorem reading_refs_located {bs : Bindings Tree} (mem : t ∈ root.nodes) :
    ∀ r ∈ (s.reading bs t).refs, s.Locates root r.span := by
  intro r listed
  unfold reading at listed
  split at listed
  case h_1 =>
    obtain rfl := List.mem_singleton.mp listed
    exact locates_span mem
  case h_2 | h_3 =>
    obtain ⟨p, _, rfl⟩ := List.mem_map.mp listed
    exact locates_span mem
  case h_4 | h_5 => cases listed

/-- **The references of nodes** are at places of their tree. -/
theorem referencesOf_located {bs : Bindings Tree} (located : bs.Located s root) (seen : List Text)
    (waiting : List (Tree × Nat)) (inside : ∀ w ∈ waiting, w.1 ∈ root.nodes) :
    ∀ r ∈ s.referencesOf bs seen waiting, s.Locates root r.span := by
  fun_induction s.referencesOf bs seen waiting with
  | case1 seen => exact fun r listed => by cases listed
  | case2 seen t waiting ih => exact ih fun w h => inside w (List.mem_cons_of_mem _ h)
  | case3 seen t levels waiting reading fresh entered passed =>
    have here := unwrap_mem_nodes (inside _ List.mem_cons_self)
    have later : ∀ w ∈ waiting, w.1 ∈ root.nodes := fun w h =>
      inside w (List.mem_cons_of_mem _ h)
    intro r listed
    rcases List.mem_append.mp listed with listed | listed
    · exact reading_refs_located here r listed
    · split at listed
      · refine entered (fun w mem => ?_) r listed
        rcases List.mem_append.mp mem with next | waits
        · obtain ⟨u, isNext, rfl⟩ := List.mem_map.mp next
          exact reading_next_mem located here u isNext
        · exact later w waits
      · exact passed later r listed

/-! ## Rows of the graph -/

theorem importRows_located (mem : t ∈ root.nodes) :
    ∀ row ∈ s.importRows t, s.Locates root row.span := by
  intro row listed
  unfold importRows at listed
  split at listed
  · obtain ⟨⟨n, imported⟩, isSpecifier, rfl⟩ := List.mem_map.mp listed
    exact locates_span (importSpecifiers_mem mem isSpecifier)
  · cases listed

theorem reexportRows_located (mem : t ∈ root.nodes) :
    ∀ row ∈ s.reexportRows t, s.Locates root row.span := by
  intro row listed
  unfold reexportRows at listed
  split at listed
  · dsimp only at listed
    split at listed
    · rename_i clause _ isClause
      obtain ⟨c, child, found⟩ := List.mem_filterMap.mp listed
      have inside := mem_nodes_of_namedChild (mem_nodes_of_childOfKind mem isClause) child
      unfold reexportSpecifier? at found
      split at found
      · obtain ⟨name, _, rfl⟩ := Option.map_eq_some_iff.mp found
        exact locates_span inside
      · cases found
    · rename_i all _ isAll
      obtain rfl := List.mem_singleton.mp listed
      exact locates_span (mem_nodes_of_childOfKind mem isAll)
    · obtain rfl := List.mem_singleton.mp listed
      exact locates_span mem
  · cases listed

theorem declaredVariables_mem (mem : t ∈ root.nodes) {x : Tree × Tree}
    (declares : x ∈ t.declaredVariables) : x.1 ∈ root.nodes ∧ x.2 ∈ root.nodes := by
  obtain ⟨d, isDeclarator, found⟩ := List.mem_filterMap.mp declares
  have inside := mem_nodes_of_namedChild mem (List.mem_filter.mp isDeclarator).1
  obtain ⟨name, isName, rfl⟩ := Option.map_eq_some_iff.mp found
  exact ⟨mem_nodes_of_field inside (Option.filter_eq_some_iff.mp isName).1, inside⟩

theorem exportForm_declaration_mem (mem : t ∈ root.nodes) {d : Tree}
    (form : t.exportForm = .declaration d) : d ∈ root.nodes := by
  unfold exportForm at form
  split at form
  · rename_i declaration _ inField
    cases form
    exact mem_nodes_of_field mem inField
  · cases form
  · cases form

theorem exportForm_value_mem (mem : t ∈ root.nodes) {v : Tree} (form : t.exportForm = .value v) :
    v ∈ root.nodes := by
  unfold exportForm at form
  split at form
  · cases form
  · rename_i value _ inField
    cases form
    exact mem_nodes_of_unwrapped mem inField
  · cases form

theorem exportForm_names_mem (mem : t ∈ root.nodes) {specifiers : List Tree}
    (form : t.exportForm = .names specifiers) : ∀ c ∈ specifiers, c ∈ root.nodes := by
  unfold exportForm at form
  split at form
  · cases form
  · cases form
  · cases form
    intro c listed
    cases clause : t.childOfKind? .exportClause with
    | none =>
      rw [clause] at listed
      cases listed
    | some parts =>
      rw [clause] at listed
      exact mem_nodes_of_namedChild (mem_nodes_of_childOfKind mem clause) listed

theorem exportedDeclaration_located {isDefault : Bool} (mem : t ∈ root.nodes) :
    ∀ row ∈ s.exportedDeclaration isDefault t, s.Locates root row.span := by
  intro row listed
  unfold exportedDeclaration at listed
  split at listed
  · obtain ⟨⟨name, d⟩, declares, rfl⟩ := List.mem_map.mp listed
    exact locates_span (declaredVariables_mem mem declares).1
  · split at listed
    · obtain ⟨name, inField, rfl⟩ := List.mem_map.mp listed
      exact locates_span (mem_nodes_of_field mem (Option.mem_toList.mp inField))
    · cases listed

theorem defaultName_mem (mem : t ∈ root.nodes) {name : Tree} (found : t.defaultName? = some name) :
    name ∈ root.nodes := by
  unfold defaultName? at found
  split at found
  · cases found
    exact mem
  · split at found
    · exact mem_nodes_of_field mem found
    · cases found

theorem exportRows_located (mem : t ∈ root.nodes) :
    ∀ row ∈ s.exportRows t, s.Locates root row.span := by
  intro row listed
  unfold exportRows at listed
  split at listed
  · split at listed
    · rename_i d form
      exact exportedDeclaration_located (exportForm_declaration_mem mem form) row listed
    · rename_i v form
      split at listed
      · obtain ⟨name, found, rfl⟩ := List.mem_map.mp listed
        have inside := exportForm_value_mem mem form
        exact locates_span (defaultName_mem inside (Option.mem_toList.mp found))
      · cases listed
    · rename_i specifiers form
      obtain ⟨c, isSpecifier, found⟩ := List.mem_filterMap.mp listed
      have inside := exportForm_names_mem mem form c isSpecifier
      unfold exportSpecifier? at found
      split at found
      · obtain ⟨name, isName, rfl⟩ := Option.map_eq_some_iff.mp found
        exact locates_span (mem_nodes_of_field inside (Option.filter_eq_some_iff.mp isName).1)
      · cases found
  · cases listed

theorem defRows_located (mem : t ∈ root.nodes) :
    ∀ row ∈ s.defRows t, s.Locates root row.span := by
  intro row listed
  unfold defRows at listed
  split at listed
  · obtain ⟨⟨name, d⟩, declares, rfl⟩ := List.mem_map.mp listed
    exact locates_span (declaredVariables_mem mem declares).2
  · split at listed
    · obtain ⟨name, inField, rfl⟩ := List.mem_map.mp listed
      exact locates_span (mem_nodes_of_field mem (Option.mem_toList.mp inField))
    · split at listed
      · obtain ⟨name, inField, rfl⟩ := List.mem_map.mp listed
        exact locates_span (mem_nodes_of_field mem (Option.mem_toList.mp inField))
      · unfold defaultDefinition at listed
        split at listed
        · rename_i v _ form
          split at listed
          · obtain ⟨name, inField, rfl⟩ := List.mem_map.mp listed
            have inside := exportForm_value_mem mem form
            exact locates_span (mem_nodes_of_field inside (Option.mem_toList.mp inField))
          · cases listed
        · cases listed

theorem mutationRows_located (mem : t ∈ root.nodes) :
    ∀ row ∈ s.mutationRows t, s.Locates root row.span := by
  intro row listed
  unfold mutationRows at listed
  split at listed
  · obtain ⟨p, _, rfl⟩ := List.mem_map.mp listed
    exact locates_span mem
  · cases listed

theorem parts_mem (path : Text) (mem : t ∈ root.nodes) :
    ∀ v ∈ s.parts path t, v.2 ∈ root.nodes := by
  intro v listed
  unfold parts at listed
  split at listed
  · obtain ⟨c, child, found⟩ := List.mem_filterMap.mp listed
    unfold propertyValue? at found
    split at found
    · obtain ⟨key, _, found⟩ := Option.bind_eq_some_iff.mp found
      obtain ⟨value, inField, found⟩ := Option.bind_eq_some_iff.mp found
      cases found
      exact mem_nodes_of_field (mem_nodes_of_namedChild mem child) inField
    · cases found
  · obtain ⟨⟨position, e⟩, element, rfl⟩ := List.mem_map.mp listed
    exact mem_nodes_of_element mem (List.mem_filter.mp element).1
  · cases listed

theorem literalRowsOf_located (exportName : Text) (waiting : List PathValue)
    (inside : ∀ v ∈ waiting, v.2 ∈ root.nodes) :
    ∀ row ∈ s.literalRowsOf exportName waiting, s.Locates root row.span := by
  fun_induction s.literalRowsOf exportName waiting with
  | case1 => exact fun row listed => by cases listed
  | case2 path v waiting _ ih => exact ih fun w h => inside w (List.mem_cons_of_mem _ h)
  | case3 path v waiting t bare _ ih =>
    intro row listed
    rcases List.mem_cons.mp listed with rfl | listed
    · exact locates_span (mem_nodes_of_bare (inside _ List.mem_cons_self) bare)
    · exact ih (fun w h => inside w (List.mem_cons_of_mem _ h)) row listed
  | case4 path v waiting t bare _ ih =>
    refine ih fun w mem => ?_
    rcases List.mem_append.mp mem with part | waits
    · exact parts_mem path (mem_nodes_of_bare (inside _ List.mem_cons_self) bare) w part
    · exact inside w (List.mem_cons_of_mem _ waits)

theorem literalIndexRows_located (mem : t ∈ root.nodes) :
    ∀ row ∈ s.literalIndexRows t, s.Locates root row.span := by
  intro row listed
  unfold literalIndexRows at listed
  split at listed
  · split at listed
    · rename_i d form
      split at listed
      · obtain ⟨⟨name, declarator⟩, declares, listed⟩ := List.mem_flatMap.mp listed
        have inside := (declaredVariables_mem (exportForm_declaration_mem mem form) declares).2
        dsimp only at listed
        split at listed
        · rename_i value inField
          refine literalRowsOf_located _ _ (fun v h => ?_) row listed
          obtain rfl := List.mem_singleton.mp h
          exact mem_nodes_of_field inside inField
        · cases listed
      · cases listed
    · cases listed
  · cases listed

/-- **The rows of a graph** are at places of the tree of the module. -/
theorem moduleGraph_located (s : Source) (root : Tree) :
    ∀ span ∈ (s.moduleGraph root).spans, s.Locates root span := by
  have rows : ∀ {ρ : Type} (row : Tree → List ρ) (place : ρ → Text),
      (∀ t, t ∈ root.nodes → ∀ r ∈ row t, s.Locates root (place r)) →
      ∀ span ∈ ((walk entersForGraph [root]).flatMap row).map place, s.Locates root span := by
    intro ρ row place located span listed
    obtain ⟨r, isRow, rfl⟩ := List.mem_map.mp listed
    obtain ⟨t, inWalk, isRow⟩ := List.mem_flatMap.mp isRow
    exact located t (mem_nodes_of_mem_walk_root inWalk) r isRow
  intro span listed
  simp only [ModuleGraph.spans, moduleGraph, List.mem_append] at listed
  rcases listed with ((((imports | exports) | reexports) | defs) | mutations) | literals
  · exact rows s.importRows _ (fun t => importRows_located) span imports
  · exact rows s.exportRows _ (fun t => exportRows_located) span exports
  · exact rows s.reexportRows _ (fun t => reexportRows_located) span reexports
  · exact rows s.defRows _ (fun t => defRows_located) span defs
  · exact rows s.mutationRows _ (fun t => mutationRows_located) span mutations
  · exact rows s.literalIndexRows _ (fun t => literalIndexRows_located) span literals

/-! ## Elements -/

theorem openingTag_mem (mem : t ∈ root.nodes) {tag : Tree} (found : t.openingTag? = some tag) :
    tag ∈ root.nodes := by
  unfold openingTag? at found
  split at found
  · cases found
    exact mem
  · rcases Option.or_eq_some_iff.mp found with inField | ⟨-, first⟩
    · exact mem_nodes_of_field mem inField
    · exact mem_nodes_of_namedChild mem (List.mem_of_mem_head? first)

theorem dataExpressions_mem (mem : t ∈ root.nodes) :
    ∀ e ∈ t.dataExpressions t.openingTag?, e ∈ root.nodes := by
  intro e listed
  obtain ⟨c, isContainer, listed⟩ := List.mem_flatMap.mp listed
  refine mem_nodes_of_expression (t := c) ?_ (List.mem_filter.mp listed).1
  unfold containers at isContainer
  rcases List.mem_append.mp isContainer with inAttribute | inElement
  · obtain ⟨a, isAttribute, child⟩ := List.mem_flatMap.mp inAttribute
    refine mem_nodes_of_namedChild (t := a) ?_ (List.mem_filter.mp child).1
    split at isAttribute
    · rename_i tag opening
      have inside := openingTag_mem mem opening
      exact mem_nodes_of_namedChild inside (List.mem_filter.mp isAttribute).1
    · cases isAttribute
  · split at inElement
    · exact mem_nodes_of_namedChild mem (List.mem_filter.mp inElement).1
    · cases inElement

/-- **The report of an element** has only places of the tree of the module. -/
theorem element_located {bs : Bindings Tree} (located : bs.Located s root) (mem : t ∈ root.nodes) :
    ∀ span ∈ (s.element bs t).spans, s.Locates root span := by
  have expressions := dataExpressions_mem mem
  have chain := foldl_traceOnto_located located _ expressions .empty (fun o h => by cases h)
  intro span listed
  simp only [Element.spans, List.mem_cons, List.mem_append] at listed
  rcases listed with rfl | (finding | candidate) | reference
  · cases opening : t.openingTag? with
    | none =>
      simp only [element, opening]
      exact locates_span mem
    | some tag =>
      simp only [element, opening]
      exact locates_span (openingTag_mem mem opening)
  · obtain ⟨o, found, place⟩ := List.mem_flatMap.mp finding
    exact chain o found span place
  · obtain ⟨c, ranked, rfl⟩ := List.mem_map.mp candidate
    obtain ⟨o, found, place⟩ := List.mem_flatMap.mp (List.mem_eraseDups.mp ranked)
    exact chain o found _ (target_mem_spans place)
  · obtain ⟨r, listed, rfl⟩ := List.mem_map.mp reference
    obtain ⟨e, shown, read⟩ := List.mem_flatMap.mp listed
    refine referencesOf_located located _ _ (fun w h => ?_) r read
    obtain rfl := List.mem_singleton.mp h
    exact expressions e shown

end Source

/-! ## The law -/

/-- The spans of a graph whose fields are changed are its spans changed. -/
theorem ModuleGraph.spans_map {α β : Type} (f : α → β) (g : ModuleGraph α) :
    (g.map f).spans = g.spans.map f := by
  simp only [spans, map, List.map_append, List.map_map, Function.comp_def]

/-- **No place is made up.** Each span in the analysis of a module is its shown path, a colon and a
line that is one more than the number of line feeds before the start of a node of its tree. That
line is at least one and at most one more than the number of line feeds in the source. -/
theorem SourceModule.analyse_spans (m : SourceModule) (withElements : Bool) :
    ∀ span ∈ (m.analyse none withElements).spans, ∃ n ∈ m.root.nodes, ∃ line : Nat,
      line = 1 + (m.source.bytes.take n.start).count 0x0A ∧
        1 ≤ line ∧ line ≤ 1 + m.source.bytes.count 0x0A ∧
        span = .str (m.source.file ++ ":" ++ Text.ofNat line) := by
  have bindings := Source.bindings_located m.source m.root
  have located : ∀ span ∈ (m.analyse none withElements).spans,
      ∃ place, span = .str place ∧ m.source.Locates m.root place := by
    intro span listed
    simp only [Analysis.spans, List.mem_append] at listed
    rcases listed with (binding | row) | element
    · obtain ⟨place, mem, rfl⟩ := List.mem_map.mp binding
      obtain ⟨e, isBinding, mem⟩ := List.mem_flatMap.mp mem
      exact ⟨place, rfl, (bindings e isBinding).spans place mem⟩
    · rw [show (m.analyse none withElements).graph =
        (m.source.moduleGraph m.root).map .str from rfl, ModuleGraph.spans_map] at row
      obtain ⟨place, mem, rfl⟩ := List.mem_map.mp row
      exact ⟨place, rfl, Source.moduleGraph_located m.source m.root place mem⟩
    · obtain ⟨place, mem, rfl⟩ := List.mem_map.mp element
      obtain ⟨e, isElement, mem⟩ := List.mem_flatMap.mp mem
      simp only [analyse] at isElement
      split at isElement
      · obtain ⟨t, visited, rfl⟩ := List.mem_map.mp isElement
        have inside := Tree.mem_nodes_of_mem_walk_root (List.mem_filter.mp visited).1
        exact ⟨place, rfl, Source.element_located bindings inside place mem⟩
      · cases isElement
  intro span listed
  obtain ⟨place, rfl, n, mem, rfl⟩ := located span listed
  refine ⟨n, mem, m.source.line n.start, Nat.add_comm _ _, Nat.le_add_left _ _, ?_, rfl⟩
  rw [Source.line, Nat.add_comm]
  exact Nat.add_le_add_left ((List.take_sublist _ _).count_le _) 1

/-- The law for the name `x` of a function on the second line of a module. -/
theorem SourceModule.analyse_spans_secondLine :
    let name : Tree := { kind := .identifier, named := true, start := 1, stop := 2,
                         fields := [.name], children := [] }
    let function : Tree := { name with kind := .functionDeclaration, children := [name] }
    let m : SourceModule := { source := { file := "m.js", bytes := [0x0A, 0x78] }
                              root := { function with kind := .program, children := [function] } }
    .str "m.js:2" ∈ (m.analyse none true).spans ∧
      ∃ n ∈ m.root.nodes, ∃ line : Nat,
        line = 1 + (m.source.bytes.take n.start).count 0x0A ∧
          1 ≤ line ∧ line ≤ 1 + m.source.bytes.count 0x0A ∧
          Json.str "m.js:2" = .str (m.source.file ++ ":" ++ Text.ofNat line) := by
  intro name function m
  have first : (m.analyse none true).spans.head? = some (.str "m.js:2") := by
    with_unfolding_all rfl
  have listed := List.mem_of_mem_head? first
  exact ⟨listed, m.analyse_spans true _ listed⟩

end JsxOrigin
