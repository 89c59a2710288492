import JsxOrigin.Proofs.Syntax.Nodes

/-!
# Laws of walks

A walk keeps the trees that wait in one list, so what it visits below a tree and what it visits
after it are not apart at first sight. They are: a walk of two lists is the one walk and then the
other (`walk_append`), so a walk follows the shape of the trees (`walk_cons`).

**The law** for passes that enter different nodes (`flatMap_walk_eq`): what two walks collect is the
same if nothing is to be collected below the nodes that only one of them enters.
-/

namespace JsxOrigin

namespace Tree

variable {enter wider : Tree → Bool}

theorem walk_append (enter : Tree → Bool) (ts us : List Tree) :
    walk enter (ts ++ us) = walk enter ts ++ walk enter us := by
  fun_induction walk enter ts with
  | case1 => rfl
  | case2 t waiting entered passed =>
    rw [List.cons_append, walk, List.cons_append]
    congr 1
    split
    · rw [← List.append_assoc]
      exact entered
    · exact passed

/-- A walk visits a tree, then what is below it, then the trees after it. -/
theorem walk_cons (enter : Tree → Bool) (t : Tree) (ts : List Tree) :
    walk enter (t :: ts) =
      t :: ((if enter t then walk enter t.namedChildren else []) ++ walk enter ts) := by
  rw [walk]
  congr 1
  split
  · exact walk_append enter _ _
  · rfl

/-- A walk visits the trees that wait one after another. -/
theorem walk_eq_flatMap (enter : Tree → Bool) (ts : List Tree) :
    walk enter ts = ts.flatMap fun t => walk enter [t] := by
  induction ts with
  | nil =>
    rw [walk]
    rfl
  | cons t ts ih =>
    rw [List.flatMap_cons, ← ih]
    exact walk_append enter [t] ts

/-- What a walk collects from a node that it enters and that adds nothing by itself. -/
theorem flatMap_walk_root {α : Type} {f : Tree → List α} {root : Tree} (enters : enter root = true)
    (silent : f root = []) :
    (walk enter [root]).flatMap f =
      root.namedChildren.flatMap fun t => (walk enter [t]).flatMap f := by
  rw [walk_cons, if_pos enters, List.flatMap_cons, silent, List.nil_append, walk, List.append_nil,
    walk_eq_flatMap, List.flatMap_assoc]

/-! ## Who is visited -/

theorem mem_walk_of_mem {t : Tree} {ts : List Tree} (mem : t ∈ ts) : t ∈ walk enter ts := by
  induction ts with
  | nil => cases mem
  | cons first rest ih =>
    rw [walk_cons]
    rcases List.mem_cons.mp mem with rfl | later
    · exact List.mem_cons_self
    · exact List.mem_cons_of_mem _ (List.mem_append_right _ (ih later))

/-- A walk visits the named children of every node that it enters. -/
theorem mem_walk_of_namedChild {p c : Tree} {ts : List Tree} (visited : p ∈ walk enter ts)
    (enters : enter p = true) (child : c ∈ p.namedChildren) : c ∈ walk enter ts := by
  fun_induction walk enter ts with
  | case1 => cases visited
  | case2 t waiting entered passed =>
    apply List.mem_cons_of_mem
    rcases List.mem_cons.mp visited with rfl | later
    · rw [if_pos enters]
      exact mem_walk_of_mem (List.mem_append_left _ child)
    · split at later
      · rename_i enters
        rw [if_pos enters]
        exact entered later
      · rename_i passes
        rw [if_neg passes]
        exact passed later

/-- A walk visits nothing but the trees that wait and named children of nodes that it enters. -/
theorem mem_walk_cases {n : Tree} {ts : List Tree} (visited : n ∈ walk enter ts) :
    n ∈ ts ∨ ∃ p ∈ walk enter ts, enter p = true ∧ n ∈ p.namedChildren := by
  fun_induction walk enter ts with
  | case1 => cases visited
  | case2 t waiting entered passed =>
    rcases List.mem_cons.mp visited with rfl | later
    · exact .inl List.mem_cons_self
    · split at later
      · rename_i enters
        rw [if_pos enters]
        rcases entered later with waits | ⟨p, isVisited, entersParent, child⟩
        · rcases List.mem_append.mp waits with child | waits
          · exact .inr ⟨t, List.mem_cons_self, enters, child⟩
          · exact .inl (List.mem_cons_of_mem _ waits)
        · exact .inr ⟨p, List.mem_cons_of_mem _ isVisited, entersParent, child⟩
      · rename_i passes
        rw [if_neg passes]
        rcases passed later with waits | ⟨p, isVisited, entersParent, child⟩
        · exact .inl (List.mem_cons_of_mem _ waits)
        · exact .inr ⟨p, List.mem_cons_of_mem _ isVisited, entersParent, child⟩

/-! ## Two walks -/

/-- A walk that enters more visits more. -/
theorem walk_subset (wide : ∀ t, enter t = true → wider t = true) (ts : List Tree) :
    walk enter ts ⊆ walk wider ts := by
  fun_induction walk enter ts with
  | case1 => exact List.nil_subset _
  | case2 t waiting entered passed =>
    intro n visited
    rw [walk_cons]
    rcases List.mem_cons.mp visited with rfl | later
    · exact List.mem_cons_self
    · apply List.mem_cons_of_mem
      split at later
      · rename_i enters
        rw [if_pos (wide t enters), ← walk_append]
        exact entered later
      · exact List.mem_append_right _ (passed later)

theorem flatMap_walk_eq_nil {α : Type} {f : Tree → List α} {t : Tree}
    (silent : ∀ n ∈ t.nodes, f n = []) : (walk enter t.namedChildren).flatMap f = [] := by
  apply List.flatMap_eq_nil_iff.mpr
  intro n visited
  refine silent n (mem_nodes_of_mem_walk enter _ ?_ visited)
  intro c child
  exact mem_nodes_of_namedChild (self_mem_nodes t) child

/-- **Two walks collect the same**, if one enters whatever the other one enters and nothing is to be
collected below the other nodes that it enters. -/
theorem flatMap_walk_eq {α : Type} (f : Tree → List α)
    (wide : ∀ t, enter t = true → wider t = true) (ts : List Tree)
    (silent : ∀ t ∈ walk enter ts, enter t = false → wider t = true → ∀ n ∈ t.nodes, f n = []) :
    (walk wider ts).flatMap f = (walk enter ts).flatMap f := by
  fun_induction walk enter ts with
  | case1 => rw [walk]
  | case2 t waiting entered passed =>
    have here := silent t List.mem_cons_self
    have later := fun u mem => silent u (List.mem_cons_of_mem _ mem)
    rw [walk_cons, List.flatMap_cons, List.flatMap_cons]
    congr 1
    cases enters : enter t with
    | true =>
      rw [if_pos (wide t enters), ← walk_append]
      simp only [enters, if_true] at later ⊢
      exact entered later
    | false =>
      have nothing :
          (if wider t = true then walk wider t.namedChildren else []).flatMap f = [] := by
        split
        · rename_i entersMore
          exact flatMap_walk_eq_nil (here enters entersMore)
        · rfl
      rw [List.flatMap_append, nothing, List.nil_append]
      simp only [enters, Bool.false_eq_true, if_false] at later ⊢
      exact passed later

end Tree

end JsxOrigin
