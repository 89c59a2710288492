import JsxOrigin.Proofs.Syntax.Walk
import Mathlib.Data.List.Basic
import Mathlib.Logic.Function.Iterate

/-!
# Document order

Equal nodes can stand in several places of a tree, so a place is told by its **position**: which
child to take at each step down. Positions are compared index by index, and a position comes before
those below it; that is the order of the document.

A pass keeps the nodes that wait on a stack, with the next one on top, and pushes the named children
of a node in reverse. Two laws say what that comes to.

* **Order** (`Tree.walk_inDocumentOrder`): a walk visits the nodes that it can reach in document
  order, each position once.
* **Recursion** (`Pass.performs_of_foldl`): the loop ends with the stack empty, and it has made what
  the recursion makes that visits a node and then its children.
-/

namespace JsxOrigin

/-- A place in a tree: the index of the child at each step down. -/
abbrev Position := List Nat

namespace Tree

/-! ## Positions -/

/-- The node that a walk finds at a position: each node above it is entered, and each step leads to
a named child. -/
def reach? (enter : Tree → Bool) (t : Tree) : Position → Option Tree
  | [] => some t
  | i :: below =>
    if enter t then (t.children[i]?.filter (·.named)).bind fun c => c.reach? enter below else none

/-- What is found below the trees that pass a test, the first of which has an index: each position
starts with the index of its tree. -/
def among (test : Tree → Bool) (find : Tree → List (Position × Tree)) (index : Nat) :
    List Tree → List (Position × Tree)
  | [] => []
  | c :: rest =>
    (if test c then (find c).map fun r => (index :: r.1, r.2) else []) ++
      among test find (index + 1) rest

mutual

/-- The nodes that a walk reaches in a tree, with their positions. -/
def reached (enter : Tree → Bool) : Tree → List (Position × Tree)
  | ⟨kind, named, start, stop, fields, children⟩ =>
    let t : Tree := ⟨kind, named, start, stop, fields, children⟩
    ([], t) :: if enter t then reachedAmong enter 0 children else []

/-- The nodes that a walk reaches in children. -/
def reachedAmong (enter : Tree → Bool) (index : Nat) : List Tree → List (Position × Tree)
  | [] => []
  | c :: rest =>
    (if c.named then (reached enter c).map fun r => (index :: r.1, r.2) else []) ++
      reachedAmong enter (index + 1) rest

end

/-- **Nodes in document order**: those at the positions that a walk reaches, each position once and
in increasing order. -/
def InDocumentOrder (enter : Tree → Bool) (root : Tree) (visited : List Tree) : Prop :=
  ∃ places : List (Position × Tree), places.map Prod.snd = visited ∧
    places.Pairwise (fun a b => a.1 < b.1) ∧
    ∀ place, place ∈ places ↔ root.reach? enter place.1 = some place.2

/-! ### Among children -/

section Among

variable {test : Tree → Bool} {find : Tree → List (Position × Tree)}

theorem mem_among {index : Nat} {ts : List Tree} {place : Position × Tree} :
    place ∈ among test find index ts ↔
      ∃ i c below, ts[i]? = some c ∧ test c = true ∧ place.1 = (index + i) :: below ∧
        (below, place.2) ∈ find c := by
  induction ts generalizing index with
  | nil => simp [among]
  | cons c rest ih =>
    rw [among, List.mem_append, ih]
    constructor
    · rintro (here | ⟨i, d, below, isChild, passes, position, inside⟩)
      · split at here
        · rename_i passes
          obtain ⟨⟨below, n⟩, inside, rfl⟩ := List.mem_map.mp here
          exact ⟨0, c, below, rfl, passes, rfl, inside⟩
        · cases here
      · refine ⟨i + 1, d, below, isChild, passes, ?_, inside⟩
        rw [position, Nat.add_right_comm, Nat.add_assoc]
    · rintro ⟨i, d, below, isChild, passes, position, inside⟩
      cases i with
      | zero =>
        cases isChild
        rw [if_pos passes]
        exact .inl (List.mem_map.mpr ⟨(below, place.2), inside, Prod.ext position.symm rfl⟩)
      | succ i =>
        refine .inr ⟨i, d, below, isChild, passes, ?_, inside⟩
        rw [position, Nat.add_right_comm, Nat.add_assoc]

/-- What is found below one tree comes before what is found below a later one. -/
theorem among_pairwise {ts : List Tree}
    (each : ∀ c ∈ ts, (find c).Pairwise fun a b => a.1 < b.1) (index : Nat) :
    (among test find index ts).Pairwise fun a b => a.1 < b.1 := by
  induction ts generalizing index with
  | nil => exact .nil
  | cons c rest ih =>
    rw [among, List.pairwise_append]
    refine ⟨?_, ih (fun d mem => each d (List.mem_cons_of_mem _ mem)) (index + 1), ?_⟩
    · split
      · refine (each c List.mem_cons_self).map _ ?_
        intro a b before
        exact List.cons_lt_cons_iff.mpr (.inr ⟨rfl, before⟩)
      · exact .nil
    · intro a inFirst b inRest
      split at inFirst
      · obtain ⟨r, -, rfl⟩ := List.mem_map.mp inFirst
        obtain ⟨i, d, below, -, -, position, -⟩ := mem_among.mp inRest
        rw [position]
        exact List.cons_lt_cons_iff.mpr (.inl (by omega))
      · cases inFirst

theorem map_snd_among (index : Nat) (ts : List Tree) :
    (among test find index ts).map Prod.snd =
      (ts.filter test).flatMap fun c => (find c).map Prod.snd := by
  induction ts generalizing index with
  | nil => rfl
  | cons c rest ih =>
    rw [among, List.map_append, ih, List.filter_cons]
    split
    · rw [List.flatMap_cons, List.map_map]
      rfl
    · rfl

end Among

/-! ### What a walk reaches -/

variable {enter : Tree → Bool}

theorem reachedAmong_eq (enter : Tree → Bool) (index : Nat) (ts : List Tree) :
    reachedAmong enter index ts = among (·.named) (reached enter) index ts := by
  induction ts generalizing index with
  | nil => rw [reachedAmong, among]
  | cons c rest ih => rw [reachedAmong, among, ih]

theorem reached_eq (enter : Tree → Bool) (t : Tree) :
    reached enter t =
      ([], t) :: if enter t then among (·.named) (reached enter) 0 t.children else [] := by
  cases t
  rw [reached, reachedAmong_eq]

theorem reach?_append (enter : Tree → Bool) (t : Tree) (above below : Position) :
    t.reach? enter (above ++ below) =
      (t.reach? enter above).bind fun n => n.reach? enter below := by
  induction above generalizing t with
  | nil => rfl
  | cons i above ih =>
    rw [List.cons_append, reach?, reach?]
    split
    · rw [Option.bind_assoc]
      exact congrArg _ (funext ih)
    · rfl

theorem child_of_reach? {t n : Tree} {i : Nat} {below : Position}
    (found : t.reach? enter (i :: below) = some n) :
    ∃ c, t.children[i]? = some c ∧ c.reach? enter below = some n := by
  rw [reach?] at found
  split at found
  · obtain ⟨c, isChild, found⟩ := Option.bind_eq_some_iff.mp found
    exact ⟨c, (Option.filter_eq_some_iff.mp isChild).1, found⟩
  · cases found

/-- A walk reaches what it finds at some position. -/
theorem mem_reached {t : Tree} {place : Position × Tree} :
    place ∈ reached enter t ↔ t.reach? enter place.1 = some place.2 := by
  obtain ⟨position, n⟩ := place
  induction position generalizing t with
  | nil =>
    rw [reached_eq, reach?, List.mem_cons, Prod.mk.injEq, Option.some_inj]
    constructor
    · rintro (⟨-, rfl⟩ | below)
      · rfl
      · split at below
        · obtain ⟨i, c, below, -, -, position, -⟩ := mem_among.mp below
          cases position
        · cases below
    · rintro rfl
      exact .inl ⟨rfl, rfl⟩
  | cons i below ih =>
    rw [reached_eq, reach?, List.mem_cons, Prod.mk.injEq]
    simp only [reduceCtorEq, false_and, false_or]
    split
    · rw [mem_among, Option.bind_eq_some_iff]
      constructor
      · rintro ⟨j, c, below', isChild, named, position, inside⟩
        obtain ⟨rfl, rfl⟩ := List.cons.inj position
        rw [Nat.zero_add, isChild]
        exact ⟨c, by simp [named], ih.mp inside⟩
      · rintro ⟨c, isChild, found⟩
        obtain ⟨isChild, named⟩ := Option.filter_eq_some_iff.mp isChild
        exact ⟨i, c, below, isChild, named, by rw [Nat.zero_add], ih.mpr found⟩
    · simp

/-- Positions are reached in increasing order. -/
theorem reached_pairwise (enter : Tree → Bool) (t : Tree) :
    (reached enter t).Pairwise fun a b => a.1 < b.1 := by
  rw [reached_eq]
  split
  · refine List.pairwise_cons.mpr ⟨?_, among_pairwise ?_ 0⟩
    · intro place below
      obtain ⟨i, c, rest, -, -, position, -⟩ := mem_among.mp below
      rw [position]
      exact List.nil_lt_cons _ _
    · intro c child
      have smaller := size_lt_of_mem child
      exact reached_pairwise enter c
  · exact List.pairwise_singleton _ _
termination_by t.size

/-- A walk visits what it reaches, in that order. -/
theorem map_snd_reached (enter : Tree → Bool) (t : Tree) :
    (reached enter t).map Prod.snd = walk enter [t] := by
  rw [walk_cons, walk, List.append_nil, reached_eq, List.map_cons]
  congr 1
  split
  · rw [map_snd_among, walk_eq_flatMap]
    refine List.flatMap_congr fun c child => ?_
    have smaller := size_lt_of_mem (List.mem_filter.mp child).1
    exact map_snd_reached enter c
  · rfl
termination_by t.size

/-- **A walk goes in document order**, and visits each position once. -/
theorem walk_inDocumentOrder (enter : Tree → Bool) (root : Tree) :
    InDocumentOrder enter root (walk enter [root]) :=
  ⟨reached enter root, map_snd_reached enter root, reached_pairwise enter root,
    fun _ => mem_reached⟩

end Tree

/-! ## Passes -/

/-- A pass over a tree: which nodes it enters, and what it makes of a node. -/
structure Pass (σ : Type) where
  enter : Tree → Bool
  visit : σ → Tree → σ

namespace Pass

variable {σ : Type}

mutual

/-- **By recursion**: a node is visited, and after it what is below it. -/
def descend (p : Pass σ) : Tree → σ → σ
  | ⟨kind, named, start, stop, fields, children⟩, made =>
    let t : Tree := ⟨kind, named, start, stop, fields, children⟩
    if p.enter t then p.descendAll children (p.visit made t) else p.visit made t

/-- The named ones of some trees, one after another. -/
def descendAll (p : Pass σ) : List Tree → σ → σ
  | [], made => made
  | c :: rest, made => p.descendAll rest (if c.named then p.descend c made else made)

end

/-- The loop under way: the stack with the next node last, the nodes that were visited, and what
was made of them. -/
structure Underway (σ : Type) where
  stack : List Tree
  visited : List Tree
  made : σ

/-- One turn of the loop. -/
def step (p : Pass σ) (u : Underway σ) : Underway σ :=
  match u.stack.getLast? with
  | none => u
  | some t =>
    { stack := u.stack.dropLast ++ if p.enter t then t.namedChildren.reverse else []
      visited := u.visited ++ [t]
      made := p.visit u.made t }

/-- What a pass over a tree makes. The loop ends after one turn for each node that it visits, in
document order, and the recursion makes the same. -/
structure Performs (p : Pass σ) (root : Tree) (start result : σ) : Prop where
  loop : ∃ visited, p.step^[visited.length] ⟨[root], [], start⟩ = ⟨[], visited, result⟩ ∧
    root.InDocumentOrder p.enter visited
  recursion : p.descend root start = result

variable (p : Pass σ)

/-- **One turn** takes the first of the nodes that wait and puts its named children before the
others. -/
theorem step_reverse (t : Tree) (waiting visited : List Tree) (made : σ) :
    p.step ⟨(t :: waiting).reverse, visited, made⟩ =
      ⟨((if p.enter t then t.namedChildren else []) ++ waiting).reverse, visited ++ [t],
        p.visit made t⟩ := by
  rw [step, List.reverse_cons, List.getLast?_concat]
  dsimp only
  rw [List.dropLast_concat, List.reverse_append]
  congr 2
  split <;> rfl

/-- **The whole loop** visits what a walk visits. -/
theorem steps_walk (waiting visited : List Tree) (made : σ) :
    p.step^[(Tree.walk p.enter waiting).length] ⟨waiting.reverse, visited, made⟩ =
      ⟨[], visited ++ Tree.walk p.enter waiting,
        (Tree.walk p.enter waiting).foldl p.visit made⟩ := by
  induction length : (Tree.walk p.enter waiting).length generalizing waiting visited made with
  | zero =>
    cases waiting with
    | nil => simp [Tree.walk]
    | cons t waiting =>
      rw [Tree.walk] at length
      cases length
  | succ n ih =>
    cases waiting with
    | nil =>
      rw [Tree.walk] at length
      cases length
    | cons t waiting =>
      have next : Tree.walk p.enter (t :: waiting) =
          t :: Tree.walk p.enter ((if p.enter t then t.namedChildren else []) ++ waiting) := by
        rw [Tree.walk]
        split <;> rfl
      rw [next, List.length_cons, Nat.add_right_cancel_iff] at length
      rw [Function.iterate_succ_apply, step_reverse, ih _ _ _ length, next, List.foldl_cons,
        List.append_assoc, List.singleton_append]

mutual

/-- The recursion visits what a walk visits. -/
theorem descend_eq_foldl (t : Tree) (made : σ) :
    p.descend t made = (Tree.walk p.enter [t]).foldl p.visit made := by
  match t with
  | ⟨kind, named, start, stop, fields, children⟩ =>
    rw [descend, Tree.walk_cons, Tree.walk, List.append_nil, List.foldl_cons]
    split
    · exact descendAll_eq_foldl children _
    · rfl

theorem descendAll_eq_foldl (ts : List Tree) (made : σ) :
    p.descendAll ts made = (Tree.walk p.enter (ts.filter (·.named))).foldl p.visit made := by
  match ts with
  | [] => rw [descendAll, List.filter_nil, Tree.walk, List.foldl_nil]
  | c :: rest =>
    rw [descendAll, descendAll_eq_foldl rest]
    split
    · rename_i named
      rw [List.filter_cons_of_pos named, descend_eq_foldl c, ← List.foldl_append,
        ← Tree.walk_append p.enter [c]]
      rfl
    · rename_i unnamed
      rw [List.filter_cons_of_neg unnamed]

end

/-- **A pass performs** what comes of the nodes of a walk, one after another. -/
theorem performs_of_foldl {root : Tree} {start result : σ}
    (made : (Tree.walk p.enter [root]).foldl p.visit start = result) :
    p.Performs root start result where
  loop := by
    refine ⟨Tree.walk p.enter [root], ?_, Tree.walk_inDocumentOrder p.enter root⟩
    rw [← made]
    exact p.steps_walk [root] [] start
  recursion := by rw [descend_eq_foldl, made]

end Pass

end JsxOrigin
