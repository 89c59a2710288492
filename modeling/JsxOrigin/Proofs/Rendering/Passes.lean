import JsxOrigin.Proofs.Syntax.DocumentOrder
import JsxOrigin.Rendering.Analysis

/-!
# The passes over a module

Three passes go over the tree of a module: one declares its names, one collects its graph, and one
reports its elements. Each of them is a `Pass`, told by the nodes that it enters and by what it
makes of a node.

**The law** (`Source.passes_inDocumentOrder`): the bindings, the graph and the reports of a module
are what the three loops make, each of which visits the nodes that it can reach in document order
and once; and they are what the recursion makes that visits a node before its children. So the rows
of every table stand in document order, a name keeps the place of its first declaration, and its
last declaration counts.
-/

namespace JsxOrigin

/-- A graph with the rows that a node adds to its tables. -/
def ModuleGraph.addRowsOf (s : Source) (g : ModuleGraph Text) (t : Tree) : ModuleGraph Text where
  file := g.file
  imports := g.imports ++ s.importRows t
  exports := g.exports ++ s.exportRows t
  reexports := g.reexports ++ s.reexportRows t
  defs := g.defs ++ s.defRows t
  mutations := g.mutations ++ s.mutationRows t
  literals := g.literals ++ s.literalIndexRows t

theorem ModuleGraph.foldl_addRowsOf (s : Source) (visited : List Tree) (g : ModuleGraph Text) :
    visited.foldl (addRowsOf s) g =
      { file := g.file
        imports := g.imports ++ visited.flatMap s.importRows
        exports := g.exports ++ visited.flatMap s.exportRows
        reexports := g.reexports ++ visited.flatMap s.reexportRows
        defs := g.defs ++ visited.flatMap s.defRows
        mutations := g.mutations ++ visited.flatMap s.mutationRows
        literals := g.literals ++ visited.flatMap s.literalIndexRows } := by
  induction visited generalizing g with
  | nil => simp
  | cons t rest ih =>
    rw [List.foldl_cons, ih]
    simp only [addRowsOf, List.flatMap_cons, List.append_assoc]

namespace Source

/-- The pass that declares the names of a module. Import statements are not entered. -/
def bindingPass (s : Source) : Pass (Bindings Tree) where
  enter t := t.kind ≠ .importStatement
  visit bs t := (s.declared t).foldl (fun bs b => Bindings.record b bs) bs

/-- The pass that collects the graph of a module. Neither import statements nor re-exports are
entered. -/
def graphPass (s : Source) : Pass (ModuleGraph Text) where
  enter t := t.kind ≠ .importStatement ∧ ¬ (t.kind = .exportStatement ∧ (t.field? .source).isSome)
  visit := ModuleGraph.addRowsOf s

/-- The pass that reports the elements of a module. Every node is entered. -/
def elementPass (s : Source) (bs : Bindings Tree) : Pass (List Element) where
  enter _ := true
  visit reports t := if t.kind.isElement then reports ++ [s.element bs t] else reports

variable (s : Source)

theorem enter_graphPass : s.graphPass.enter = Tree.entersForGraph := by
  funext t
  rw [graphPass, Tree.entersForGraph, ← decide_not, decide_eq_decide]
  exact not_or.symm

theorem foldl_elementPass (bs : Bindings Tree) (visited : List Tree) (reports : List Element) :
    visited.foldl (s.elementPass bs).visit reports =
      reports ++ (visited.filter (·.kind.isElement)).map (s.element bs) := by
  induction visited generalizing reports with
  | nil => simp
  | cons t rest ih =>
    rw [List.foldl_cons, ih, List.filter_cons]
    show (if t.kind.isElement then reports ++ [s.element bs t] else reports) ++ _ = _
    by_cases isElement : t.kind.isElement
    · rw [if_pos isElement, if_pos isElement, List.map_cons, List.append_assoc,
        List.singleton_append]
    · rw [if_neg isElement, if_neg isElement]

/-- **The passes go over a module in document order**, each node once: what they make is made by
their loops and by their recursions. -/
theorem passes_inDocumentOrder (bs : Bindings Tree) (root : Tree) :
    s.bindingPass.Performs root [] (s.bindings root) ∧
      s.graphPass.Performs root { file := s.file } (s.moduleGraph root) ∧
      (s.elementPass bs).Performs root [] (s.elements bs root) := by
  refine ⟨Pass.performs_of_foldl _ ?_, Pass.performs_of_foldl _ ?_, Pass.performs_of_foldl _ ?_⟩
  · exact List.foldl_flatMap.symm
  · rw [enter_graphPass, graphPass, ModuleGraph.foldl_addRowsOf]
    rfl
  · rw [foldl_elementPass]
    rfl

end Source

end JsxOrigin
