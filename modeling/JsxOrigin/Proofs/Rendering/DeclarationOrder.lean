import JsxOrigin.Proofs.ModuleGraph.Declarations
import JsxOrigin.Proofs.Provenance.Dependence
import JsxOrigin.Rendering.Analysis

/-!
# The order of declarations

The statements of a module can be put in another order, each of them as it is and in its place in
the source. **The law** (`SourceModule.analyse_reordered`): if the module declares no name twice,
every name has the binding that it had, so every trace and every list of references is the same, and
each element has the report that it had. The reports come in the order of the statements.

A program declares nothing by itself and is no element, so what is collected from it is what is
collected from its statements one after another (`Source.declarations_of_program`,
`Source.elements_of_program`). Without a second declaration of a name the table of bindings is the
list of declarations, and looking a name up in that does not depend on its order. Everything else
asks the bindings for names and for nothing more.
-/

namespace JsxOrigin

/-- A tree with other children. -/
def Tree.withChildren (t : Tree) (children : List Tree) : Tree := { t with children }

namespace Source

open JsxOrigin.Tree

variable (s : Source) {root : Tree} {statements : List Tree}

/-! ## Statement by statement -/

/-- A program declares what its statements declare. -/
theorem declarations_of_program (isProgram : root.kind = .program) :
    s.declarations root = root.namedChildren.flatMap s.declarations := by
  refine flatMap_walk_root ?_ ?_
  · rw [isProgram]
    rfl
  · exact s.declared_eq_nil (by rw [isProgram]; rfl)

/-- The elements of a program are those of its statements. -/
theorem elements_of_program (isProgram : root.kind = .program) (bs : Bindings Tree) :
    s.elements bs root = root.namedChildren.flatMap (s.elements bs) := by
  have noElement : root.kind.isElement = false := by rw [isProgram]; rfl
  have visited : walk (fun _ => true) [root] =
      root :: root.namedChildren.flatMap fun t => walk (fun _ => true) [t] := by
    rw [walk_cons, if_pos rfl, walk, List.append_nil, ← walk_eq_flatMap]
  rw [elements, visited, List.filter_cons_of_neg (by simp [noElement]), List.filter_flatMap,
    List.map_flatMap]
  rfl

theorem namedChildren_perm (reordered : statements.Perm root.children) :
    (root.withChildren statements).namedChildren.Perm root.namedChildren :=
  reordered.filter _

/-! ## The bindings -/

/-- The declarations of a program come in the order of its statements. -/
theorem declarations_perm (isProgram : root.kind = .program)
    (reordered : statements.Perm root.children) :
    (s.declarations (root.withChildren statements)).Perm (s.declarations root) := by
  have isProgramToo : (root.withChildren statements).kind = .program := isProgram
  rw [s.declarations_of_program isProgram, s.declarations_of_program isProgramToo]
  exact (namedChildren_perm reordered).flatMap_right _

/-- Without a second declaration of a name, the bindings are the declarations. -/
theorem bindings_of_nodup (once : ((s.declarations root).map (·.name)).Nodup) :
    s.bindings root = (s.declarations root).map fun b => (b.name, b) := by
  rw [bindings_eq_ofList]
  apply Table.ofList_of_nodup
  rw [List.map_map]
  exact once

/-- **Names keep their bindings** if no name is declared twice. -/
theorem lookup_reordered (isProgram : root.kind = .program)
    (reordered : statements.Perm root.children)
    (once : ((s.declarations root).map (·.name)).Nodup) (name : Text) :
    (s.bindings (root.withChildren statements)).lookup name = (s.bindings root).lookup name := by
  have perm := s.declarations_perm isProgram reordered
  have onceToo := (perm.map (·.name)).nodup_iff.mpr once
  rw [s.bindings_of_nodup once, s.bindings_of_nodup onceToo]
  apply Table.get?_of_perm (perm.map _)
  rw [Table.keys, List.map_map]
  exact once

/-! ## What only asks for names -/

variable {bs bs' : Bindings Tree} (same : ∀ name, bs'.lookup name = bs.lookup name)
include same

/-- Traces are the same over tables that know the same about every name. -/
theorem traceFrom_congr (depth : Int) (t : Tree) (st : TraceState) :
    s.traceFrom bs' depth t st = s.traceFrom bs depth t st :=
  s.follow_eq_of_agree _ t st fun _ _ name _ => (same name).symm

theorem references_congr (t : Tree) : s.references bs' t = s.references bs t :=
  s.referencesOf_eq_of_agree [] _ fun r _ _ => (same r.name).symm

/-- The report of an element is the same over tables that know the same about every name. -/
theorem element_congr (t : Tree) : s.element bs' t = s.element bs t := by
  have traces : s.traceOnto bs' = s.traceOnto bs := by
    funext chain t
    rw [traceOnto, traceOnto, s.traceFrom_congr same]
  have refs : s.references bs' = s.references bs := funext (s.references_congr same)
  rw [element, element, traces, refs]

theorem elements_congr (root : Tree) : s.elements bs' root = s.elements bs root := by
  rw [elements, elements, funext (s.element_congr same)]

end Source

namespace SourceModule

/-- A module with its statements replaced. -/
def withStatements (m : SourceModule) (statements : List Tree) : SourceModule :=
  { m with root := m.root.withChildren statements }

/-- **The order of declarations does not matter.** If the statements of a module are reordered and
it declares no name twice, then every name keeps its binding; a trace of any expression from any
depth and in any state ends in the same state, with the same candidates and the same tags; every
expression has the same references; and the module has the reports of its statements, one after
another, in the old order before and in the new order after. -/
theorem analyse_reordered (m : SourceModule) (isProgram : m.root.kind = .program)
    {statements : List Tree} (reordered : statements.Perm m.root.children)
    (once : ((m.source.declarations m.root).map (·.name)).Nodup) :
    let before := m.source.bindings m.root
    let after := (m.withStatements statements).source.bindings (m.withStatements statements).root
    (∀ name, after.lookup name = before.lookup name) ∧
    (∀ (depth : Int) (t : Tree) (st : TraceState),
      let old := m.source.traceFrom before depth t st
      let new := m.source.traceFrom after depth t st
      new = old ∧ Candidate.rank new.chain.findings = Candidate.rank old.chain.findings ∧
        Finding.tags new.chain.findings = Finding.tags old.chain.findings) ∧
    (∀ t, m.source.references after t = m.source.references before t) ∧
    ∀ graph,
      let reports (statements : List Tree) : List Element :=
        (statements.filter (·.named)).flatMap (m.source.elements before)
      (m.analyse graph true).elements = reports m.root.children ∧
        ((m.withStatements statements).analyse graph true).elements = reports statements := by
  have same := m.source.lookup_reordered isProgram reordered once
  refine ⟨same, ?_, m.source.references_congr same, fun graph => ⟨?_, ?_⟩⟩
  · intro depth t st
    have traces := m.source.traceFrom_congr same depth t st
    exact ⟨traces, congrArg (Candidate.rank ·.chain.findings) traces,
      congrArg (Finding.tags ·.chain.findings) traces⟩
  · exact m.source.elements_of_program isProgram _
  · have isProgramToo : (m.withStatements statements).root.kind = .program := isProgram
    exact (m.source.elements_congr same _).trans (m.source.elements_of_program isProgramToo _)

/-- The law for an element that shows `a`, an element that shows nothing and the declaration of `a`,
in this order and in the opposite one. -/
theorem analyse_reordered_backwards :
    let source : Source := { file := "m.js", bytes := [0x61, 0x0A, 0x22, 0x22] }
    let leaf (kind : Kind) (start stop : Nat) (fields : List Field) : Tree :=
      { kind, named := true, start, stop, fields, children := [] }
    let shown : Tree :=
      { leaf .jsxElement 0 0 [] with
        children := [{ leaf .jsxExpression 0 0 [] with children := [leaf .identifier 0 1 []] }] }
    let declared : Tree :=
      { leaf .declarator 0 0 [] with
        children := [leaf .identifier 0 1 [.name], leaf .string 2 4 [.value]] }
    let m : SourceModule :=
      { source,
        root := { leaf .program 0 0 [] with
          children := [shown, leaf .jsxElement 0 0 [], declared] } }
    let backwards := [declared, leaf .jsxElement 0 0 [], shown]
    let after := m.withStatements backwards
    m.root.kind = .program ∧ backwards.Perm m.root.children ∧
      ((source.declarations m.root).map (·.name)).Nodup ∧
      (m.analyse none true).elements.map (·.chain.findings) =
        [[.ident "a" "m.js:1", .init "m.js:2", .literal "m.js:2" "string"], []] ∧
      (after.analyse none true).elements.map (·.chain.findings) =
        [[], [.ident "a" "m.js:1", .init "m.js:2", .literal "m.js:2" "string"]] := by
  intro source leaf shown declared m backwards after
  have once : ((source.declarations m.root).map (·.name)).Nodup := by decide +kernel
  have reordered : backwards.Perm m.root.children :=
    List.reverse_perm [shown, leaf .jsxElement 0 0 [], declared]
  obtain ⟨-, -, -, reports⟩ := m.analyse_reordered rfl reordered once
  obtain ⟨before, after⟩ := reports none
  refine ⟨rfl, reordered, once, ?_, ?_⟩
  · rw [before]
    decide +kernel
  · rw [after]
    decide +kernel

end SourceModule

end JsxOrigin
