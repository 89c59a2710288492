import JsxOrigin.ModuleGraph.LiteralIndex
import JsxOrigin.Proofs.Syntax.ArrayPositions
import JsxOrigin.Syntax.Tree

/-!
# Nodes of a tree

Whatever a look at a node leads to is a node of the same tree: its children, the child in a field,
the expression inside parentheses, the elements of an array literal. Each of these is one lemma
about membership in `Tree.nodes`, and **the law** for passes (`mem_nodes_of_mem_walk`) says that a
walk visits nothing else, whatever it chooses to enter.
-/

namespace JsxOrigin

namespace Tree

theorem nodes_eq (t : Tree) : t.nodes = t :: nodesOf t.children := by
  cases t
  rw [nodes]

theorem self_mem_nodes (t : Tree) : t ∈ t.nodes := by
  rw [nodes_eq]
  exact List.mem_cons_self

theorem mem_nodesOf {n : Tree} {ts : List Tree} : n ∈ nodesOf ts ↔ ∃ t ∈ ts, n ∈ t.nodes := by
  induction ts with
  | nil => simp [nodesOf]
  | cons t ts ih => simp [nodesOf, ih]

theorem nodes_subset_of_mem_children {t c : Tree} (child : c ∈ t.children) :
    c.nodes ⊆ t.nodes := by
  intro n mem
  rw [nodes_eq t]
  exact List.mem_cons_of_mem _ (mem_nodesOf.mpr ⟨c, child, mem⟩)

/-- The nodes of a node of a tree are nodes of that tree. -/
theorem nodes_subset_of_mem {t root : Tree} (mem : t ∈ root.nodes) : t.nodes ⊆ root.nodes := by
  rw [nodes_eq root] at mem
  rcases List.mem_cons.mp mem with rfl | below
  · exact List.Subset.refl _
  · obtain ⟨c, child, inside⟩ := mem_nodesOf.mp below
    have smaller := size_lt_of_mem child
    exact List.Subset.trans (nodes_subset_of_mem inside) (nodes_subset_of_mem_children child)
termination_by root.size

/-! ## What a look at a node leads to -/

section Looks

variable {root t c : Tree} (mem : t ∈ root.nodes)
include mem

theorem mem_nodes_of_child (child : c ∈ t.children) : c ∈ root.nodes :=
  nodes_subset_of_mem mem (nodes_subset_of_mem_children child (self_mem_nodes c))

theorem mem_nodes_of_field {f : Field} (found : t.field? f = some c) : c ∈ root.nodes :=
  mem_nodes_of_child mem (List.mem_of_find?_eq_some found)

theorem mem_nodes_of_namedChild (child : c ∈ t.namedChildren) : c ∈ root.nodes :=
  mem_nodes_of_child mem (List.mem_filter.mp child).1

theorem mem_nodes_of_childOfKind {kind : Kind} (found : t.childOfKind? kind = some c) :
    c ∈ root.nodes :=
  mem_nodes_of_namedChild mem (List.mem_of_find?_eq_some found)

theorem mem_nodes_of_expression (child : c ∈ t.expressions) : c ∈ root.nodes :=
  mem_nodes_of_namedChild mem (List.mem_filter.mp child).1

end Looks

mutual

/-- Taking parentheses off leads to a node inside. -/
theorem unwrap_mem_nodes_self (t : Tree) : t.unwrap ∈ t.nodes := by
  match t with
  | ⟨kind, named, start, stop, fields, children⟩ =>
    rw [unwrap]
    split
    · cases first : unwrapFirst children with
      | none => exact self_mem_nodes _
      | some u =>
        rw [nodes]
        exact List.mem_cons_of_mem _ (unwrapFirst_mem_nodesOf children first)
    · exact self_mem_nodes _

theorem unwrapFirst_mem_nodesOf (ts : List Tree) {u : Tree} (first : unwrapFirst ts = some u) :
    u ∈ nodesOf ts := by
  match ts with
  | [] => simp [unwrapFirst] at first
  | c :: rest =>
    rw [unwrapFirst] at first
    rw [nodesOf]
    split at first
    · cases first
      exact List.mem_append_left _ (unwrap_mem_nodes_self c)
    · exact List.mem_append_right _ (unwrapFirst_mem_nodesOf rest first)

end

mutual

/-- Taking parentheses and type annotations off leads to a node inside. -/
theorem bare_mem_nodes_self (t : Tree) {u : Tree} (bare : t.bare? = some u) : u ∈ t.nodes := by
  match t with
  | ⟨kind, named, start, stop, fields, children⟩ =>
    rw [bare?] at bare
    split at bare
    · cases first : bareExpression? children with
      | none =>
        rw [first] at bare
        cases bare
        exact self_mem_nodes _
      | some v =>
        rw [first, Option.getD_some] at bare
        rw [nodes]
        exact List.mem_cons_of_mem _ (bareExpression_mem_nodesOf children (bare ▸ first))
    · split at bare
      · cases first : bareNamed? children with
        | none =>
          rw [first] at bare
          cases bare
        | some v =>
          rw [first, Option.getD_some] at bare
          rw [nodes]
          exact List.mem_cons_of_mem _ (bareNamed_mem_nodesOf children (bare ▸ first))
      · cases bare
        exact self_mem_nodes _

theorem bareExpression_mem_nodesOf (ts : List Tree) {u : Tree}
    (first : bareExpression? ts = some (some u)) : u ∈ nodesOf ts := by
  match ts with
  | [] => simp [bareExpression?] at first
  | c :: rest =>
    rw [bareExpression?] at first
    rw [nodesOf]
    split at first
    · exact List.mem_append_left _ (bare_mem_nodes_self c (Option.some.inj first))
    · exact List.mem_append_right _ (bareExpression_mem_nodesOf rest first)

theorem bareNamed_mem_nodesOf (ts : List Tree) {u : Tree}
    (first : bareNamed? ts = some (some u)) : u ∈ nodesOf ts := by
  match ts with
  | [] => simp [bareNamed?] at first
  | c :: rest =>
    rw [bareNamed?] at first
    rw [nodesOf]
    split at first
    · exact List.mem_append_left _ (bare_mem_nodes_self c (Option.some.inj first))
    · exact List.mem_append_right _ (bareNamed_mem_nodesOf rest first)

end

section Insides

variable {root t c : Tree} (mem : t ∈ root.nodes)
include mem

theorem unwrap_mem_nodes : t.unwrap ∈ root.nodes :=
  nodes_subset_of_mem mem (unwrap_mem_nodes_self t)

theorem mem_nodes_of_unwrapped {f : Field} (found : t.unwrapped? f = some c) :
    c ∈ root.nodes := by
  obtain ⟨wrapped, inField, rfl⟩ := Option.map_eq_some_iff.mp found
  exact unwrap_mem_nodes (mem_nodes_of_field mem inField)

theorem mem_nodes_of_bare (bare : t.bare? = some c) : c ∈ root.nodes :=
  nodes_subset_of_mem mem (bare_mem_nodes_self t bare)

theorem mem_nodes_of_element {e : Nat × Tree} (element : e ∈ t.elements) : e.2 ∈ root.nodes :=
  mem_nodes_of_child mem
    ((elementsFrom_sublist 0 false t.children).subset (List.mem_map_of_mem element))

end Insides

/-! ## Walks -/

/-- **A walk visits only nodes of the tree** in which the trees that wait are found. -/
theorem mem_nodes_of_mem_walk {root n : Tree} (enter : Tree → Bool) (waiting : List Tree)
    (within : ∀ t ∈ waiting, t ∈ root.nodes) (visited : n ∈ walk enter waiting) :
    n ∈ root.nodes := by
  fun_induction walk enter waiting with
  | case1 => cases visited
  | case2 t waiting entered passed =>
    have here := within t List.mem_cons_self
    have later : ∀ u ∈ waiting, u ∈ root.nodes := fun u mem =>
      within u (List.mem_cons_of_mem _ mem)
    rcases List.mem_cons.mp visited with rfl | visited
    · exact here
    · split at visited
      · refine entered (fun u mem => ?_) visited
        rcases List.mem_append.mp mem with child | waits
        · exact mem_nodes_of_namedChild here child
        · exact later u waits
      · exact passed later visited

theorem mem_nodes_of_mem_walk_root {root n : Tree} {enter : Tree → Bool}
    (visited : n ∈ walk enter [root]) : n ∈ root.nodes := by
  refine mem_nodes_of_mem_walk enter [root] (fun t mem => ?_) visited
  obtain rfl := List.mem_singleton.mp mem
  exact self_mem_nodes t

end Tree

end JsxOrigin
