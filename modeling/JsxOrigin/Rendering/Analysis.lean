import JsxOrigin.Json.Basic
import JsxOrigin.ModuleGraph.Collect
import JsxOrigin.Rendering.Element

/-!
# The analysis of a module

The bindings of a module are complete before anything is traced. Then come the graph, unless one is
given, and the reports of the elements, if they are asked for.
-/

namespace JsxOrigin

/-- What is known about a module. -/
structure Analysis where
  source : Source
  bindings : Bindings Tree
  graph : ModuleGraph Json
  elements : List Element

/-- A module: its source with its syntax tree. -/
structure SourceModule where
  source : Source
  root : Tree

/-- Analyses a module. A graph that is given is taken instead of a new one. -/
def SourceModule.analyse (m : SourceModule) (graph : Option (ModuleGraph Json))
    (withElements : Bool) : Analysis :=
  let bindings := m.source.bindings m.root
  { source := m.source
    bindings
    graph := graph.getD ((m.source.moduleGraph m.root).map .str)
    elements := if withElements then m.source.elements bindings m.root else [] }

/-- The elements that cover a line. -/
def Analysis.elementsAt (a : Analysis) (line : Int) : List Element :=
  a.elements.filter (·.covers line)

end JsxOrigin
