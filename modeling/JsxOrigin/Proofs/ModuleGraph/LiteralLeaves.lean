import JsxOrigin.ModuleGraph.Collect
import JsxOrigin.Proofs.Syntax.Nodes
import Mathlib.Data.List.Basic
import Mathlib.Data.List.Flatten

/-!
# The leaves of exported data

The literal index is collected with a list of values that wait. What it collects can be said by
recursion on the value: a string is a leaf, and the leaves of anything else are those of the values
directly inside it (`Source.inside`), each reached by a further step. Parentheses and type
annotations are no steps. The path of a leaf writes its steps one after another
(`DataStep.written`), the first key without its dot.

**The law** (`Source.literals_eq_leaves`): the rows of the index are the leaves of the exported
variables, one row for each leaf, and the leaves of a value come in document order, none of them
twice.
-/

namespace JsxOrigin

/-- A step from an object or an array to a value inside it. -/
inductive DataStep where
  | key (name : Text)
  | position (index : Nat)
deriving DecidableEq

namespace DataStep

/-- How a step is written after others: a dot and the key, or the position in brackets. -/
def written : DataStep → Text
  | key name => .scalar '.' :: name
  | position index => .scalar '[' :: (Text.ofNat index ++ [.scalar ']'])

/-- A path with a step added at its end. A key that starts a path has no dot. -/
def extend (path : Text) : DataStep → Text
  | key name => if path = [] then name else path ++ written (key name)
  | position index => path ++ written (position index)

/-- The path that steps make. -/
def path (steps : List DataStep) : Text := steps.foldl extend []

theorem keyPath_eq (path name : Text) : keyPath path name = extend path (key name) := by
  cases path with
  | nil => rfl
  | cons c rest => simp [keyPath, extend, written, Text.ofString]

theorem positionPath_eq (path : Text) (index : Nat) :
    positionPath path index = extend path (position index) := by
  simp [positionPath, extend, written, Text.ofString]

end DataStep

/-! ## Order of nodes -/

namespace Tree

theorem nodesOf_eq_flatMap (ts : List Tree) : nodesOf ts = ts.flatMap nodes := by
  induction ts with
  | nil => rfl
  | cons t ts ih => rw [nodesOf, ih, List.flatMap_cons]

theorem nodes_sublist_of_child {t c : Tree} (child : c ∈ t.children) : c.nodes.Sublist t.nodes := by
  rw [nodes_eq t, nodesOf_eq_flatMap]
  have single : [c].Sublist t.children := List.singleton_sublist.mpr child
  have inside := single.flatMap nodes
  rw [List.flatMap_singleton] at inside
  exact inside.cons _

theorem size_le_of_mem_nodes {t n : Tree} (mem : n ∈ t.nodes) : n.size ≤ t.size := by
  rw [nodes_eq] at mem
  rcases List.mem_cons.mp mem with rfl | below
  · exact Nat.le_refl _
  · obtain ⟨c, child, inside⟩ := mem_nodesOf.mp below
    have smaller := size_lt_of_mem child
    exact Nat.le_trans (size_le_of_mem_nodes inside) (Nat.le_of_lt smaller)
termination_by t.size

/-! ## Exported variables -/

end Tree

namespace Source

/-! ## Leaves -/

/-- The static key of a property that is a pair. -/
def staticKey? (s : Source) (property : Tree) : Option Text :=
  if property.kind = .pair then (property.field? .key).bind s.propertyKey? else none

/-- The value of a pair with a static key, with the step that leads to it. -/
def keyedValue? (s : Source) (property : Tree) : Option (List DataStep × Tree) :=
  (s.staticKey? property).bind fun name =>
    (property.field? .value).map fun value => ([.key name], value)

/-- The values directly inside a value, with the steps that lead to them: what parentheses and type
annotations are around, the values of an object that have a static key, and the elements of an array
that are not spread. -/
def inside (s : Source) (t : Tree) : List (List DataStep × Tree) :=
  if t.kind = .parenthesized then t.expressions.head?.toList.map ([], ·)
  else if t.kind.isTypeWrapper then t.namedChildren.head?.toList.map ([], ·)
  else if t.kind = .object then t.namedChildren.filterMap s.keyedValue?
  else if t.kind = .array then
    (t.elements.filter (·.2.kind ≠ .spread)).map fun e => ([.position e.1], e.2)
  else []

theorem keyedValue?_cases {s : Source} {property : Tree} {v : List DataStep × Tree}
    (keyed : s.keyedValue? property = some v) :
    ∃ name, s.staticKey? property = some name ∧ v.1 = [.key name] ∧
      property.field? .value = some v.2 := by
  obtain ⟨name, isKey, found⟩ := Option.bind_eq_some_iff.mp keyed
  obtain ⟨value, isValue, rfl⟩ := Option.map_eq_some_iff.mp found
  exact ⟨name, isKey, rfl, isValue⟩

theorem inside_sublist_of_children {t : Tree} {vs : List (List DataStep × Tree)}
    (among : (vs.map Prod.snd).Sublist t.children) :
    (vs.flatMap fun v => v.2.nodes).Sublist (Tree.nodesOf t.children) := by
  rw [Tree.nodesOf_eq_flatMap]
  have below := among.flatMap Tree.nodes
  rwa [List.flatMap_map] at below

/-- The values directly inside a value come in document order, none of them twice. -/
theorem inside_sublist (s : Source) (t : Tree) :
    ((s.inside t).flatMap fun v => v.2.nodes).Sublist (Tree.nodesOf t.children) := by
  have first {ts : List Tree} (among : ts.Sublist t.children) :
      ((ts.head?.toList.map (([] : List DataStep), ·)).map Prod.snd).Sublist t.children := by
    cases ts with
    | nil => exact List.nil_sublist _
    | cons c rest => exact List.singleton_sublist.mpr (among.subset List.mem_cons_self)
  unfold inside
  split
  · exact inside_sublist_of_children (first (List.filter_sublist.trans List.filter_sublist))
  split
  · exact inside_sublist_of_children (first List.filter_sublist)
  split
  · rw [Tree.nodesOf_eq_flatMap, List.filterMap_eq_flatMap_toList, List.flatMap_assoc]
    refine (List.Sublist.flatMap_right _ ?_).trans (List.filter_sublist.flatMap Tree.nodes)
    intro property _
    cases keyed : s.keyedValue? property with
    | none => exact List.nil_sublist _
    | some v =>
      rw [Option.toList_some, List.flatMap_singleton]
      obtain ⟨name, -, -, isValue⟩ := keyedValue?_cases keyed
      exact Tree.nodes_sublist_of_child (List.mem_of_find?_eq_some isValue)
  split
  · apply inside_sublist_of_children
    rw [List.map_map]
    exact (List.filter_sublist.map Prod.snd).trans (Tree.elementsFrom_sublist 0 false t.children)
  · exact List.nil_sublist _

theorem inside_mem_nodes {s : Source} {t : Tree} {v : List DataStep × Tree} (mem : v ∈ s.inside t) :
    v.2 ∈ Tree.nodesOf t.children :=
  (s.inside_sublist t).subset (List.mem_flatMap.mpr ⟨v, mem, v.2.self_mem_nodes⟩)

/-- A value directly inside a value is smaller. -/
theorem size_inside_lt {s : Source} {t : Tree} {v : List DataStep × Tree} (mem : v ∈ s.inside t) :
    v.2.size < t.size := by
  obtain ⟨c, child, below⟩ := Tree.mem_nodesOf.mp (inside_mem_nodes mem)
  have small := Tree.size_lt_of_mem child
  have smaller := Tree.size_le_of_mem_nodes below
  omega

/-- The leaves of a value: the string literals in it, with the steps that lead to them. -/
def leaves (s : Source) (t : Tree) : List (List DataStep × Tree) :=
  if t.kind = .string then [([], t)]
  else (s.inside t).attach.flatMap fun v =>
    (s.leaves v.val.2).map fun leaf => (v.val.1 ++ leaf.1, leaf.2)
termination_by t.size
decreasing_by exact size_inside_lt v.property

theorem leaves_of_string (s : Source) {t : Tree} (isString : t.kind = .string) :
    s.leaves t = [([], t)] := by
  rw [leaves, if_pos isString]

/-- The leaves of what is no string are those of the values directly inside it. -/
theorem leaves_of_inside (s : Source) {t : Tree} (noString : t.kind ≠ .string) :
    s.leaves t =
      (s.inside t).flatMap fun v => (s.leaves v.2).map fun leaf => (v.1 ++ leaf.1, leaf.2) := by
  rw [leaves, if_neg noString]
  conv_rhs => rw [← List.attach_map_subtype_val (s.inside t), List.flatMap_map]

theorem kind_of_mem_leaves (s : Source) (t : Tree) {leaf : List DataStep × Tree}
    (mem : leaf ∈ s.leaves t) : leaf.2.kind = .string := by
  by_cases isString : t.kind = .string
  · rw [s.leaves_of_string isString] at mem
    obtain rfl := List.mem_singleton.mp mem
    exact isString
  · rw [s.leaves_of_inside isString] at mem
    obtain ⟨v, isInside, below⟩ := List.mem_flatMap.mp mem
    obtain ⟨inner, isLeaf, rfl⟩ := List.mem_map.mp below
    have smaller := size_inside_lt isInside
    show inner.2.kind = .string
    exact s.kind_of_mem_leaves v.2 isLeaf
termination_by t.size

/-! ## Wrapping -/

theorem bareExpression?_eq (ts : List Tree) :
    Tree.bareExpression? ts =
      ((ts.filter (·.named)).filter (·.kind ≠ .comment)).head?.map Tree.bare? := by
  induction ts with
  | nil => rfl
  | cons c rest ih =>
    rw [Tree.bareExpression?]
    by_cases named : c.named <;> by_cases comment : c.kind = .comment <;>
      simp [named, comment, ih]

theorem bareNamed?_eq (ts : List Tree) :
    Tree.bareNamed? ts = (ts.filter (·.named)).head?.map Tree.bare? := by
  induction ts with
  | nil => rfl
  | cons c rest ih =>
    rw [Tree.bareNamed?]
    by_cases named : c.named <;> simp [named, ih]

/-- Taking the wrapping off, one layer at a time. -/
theorem bare?_eq (t : Tree) :
    t.bare? =
      if t.kind = .parenthesized then (t.expressions.head?.map Tree.bare?).getD (some t)
      else if t.kind.isTypeWrapper then (t.namedChildren.head?.map Tree.bare?).getD none
      else some t := by
  cases t
  rw [Tree.bare?, bareExpression?_eq, bareNamed?_eq]
  rfl

theorem noString_of_parenthesized {t : Tree} (parenthesized : t.kind = .parenthesized) :
    t.kind ≠ .string := by
  rw [parenthesized]
  decide

theorem noString_of_isTypeWrapper {t : Tree} (wrapper : t.kind.isTypeWrapper = true) :
    t.kind ≠ .string := by
  intro isString
  rw [isString] at wrapper
  exact absurd wrapper (by decide)

/-- A value has the leaves that it has without its wrapping. -/
theorem leaves_bare (s : Source) (t : Tree) : s.leaves t = t.bare?.elim [] s.leaves := by
  have through {e : Tree} (only : s.inside t = [([], e)]) (noString : t.kind ≠ .string) :
      s.leaves t = e.bare?.elim [] s.leaves := by
    have smaller : e.size < t.size := size_inside_lt (v := ([], e)) (only ▸ List.mem_cons_self)
    rw [s.leaves_of_inside noString, only, ← s.leaves_bare e]
    simp
  rw [bare?_eq]
  split
  · rename_i parenthesized
    cases first : t.expressions.head? with
    | none => rfl
    | some e =>
      refine through ?_ (noString_of_parenthesized parenthesized)
      rw [inside, if_pos parenthesized, first]
      rfl
  split
  · rename_i notParenthesized wrapper
    cases first : t.namedChildren.head? with
    | none =>
      rw [s.leaves_of_inside (noString_of_isTypeWrapper wrapper), inside, if_neg notParenthesized,
        if_pos wrapper, first]
      rfl
    | some e =>
      refine through ?_ (noString_of_isTypeWrapper wrapper)
      rw [inside, if_neg notParenthesized, if_pos wrapper, first]
      rfl
  · rfl
termination_by t.size

/-- Nothing is left of the wrapping but parentheses around nothing. -/
theorem bare_of_bare? (t : Tree) {u : Tree} (bare : t.bare? = some u) :
    u.kind.isTypeWrapper = false ∧ (u.kind = .parenthesized → u.expressions = []) := by
  rw [bare?_eq] at bare
  split at bare
  · rename_i parenthesized
    cases first : t.expressions.head? with
    | none =>
      rw [first] at bare
      cases bare
      exact ⟨by rw [parenthesized]; decide, fun _ => List.head?_eq_none_iff.mp first⟩
    | some e =>
      have smaller : e.size < t.size :=
        Tree.size_lt_of_mem
          (List.mem_of_mem_filter (List.mem_of_mem_filter (List.mem_of_head? first)))
      rw [first] at bare
      exact bare_of_bare? e bare
  split at bare
  · rename_i notParenthesized wrapper
    cases first : t.namedChildren.head? with
    | none =>
      rw [first] at bare
      cases bare
    | some e =>
      have smaller : e.size < t.size :=
        Tree.size_lt_of_mem (List.mem_of_mem_filter (List.mem_of_head? first))
      rw [first] at bare
      exact bare_of_bare? e bare
  · rename_i notParenthesized notWrapper
    cases bare
    exact ⟨Bool.eq_false_iff.mpr notWrapper, fun parenthesized =>
      absurd parenthesized notParenthesized⟩
termination_by t.size

/-! ## Values that wait -/

/-- A value inside another one with its path. -/
def placed (path : Text) (v : List DataStep × Tree) : PathValue :=
  (v.1.foldl DataStep.extend path, v.2)

theorem propertyValue?_eq (s : Source) (path : Text) (property : Tree) :
    s.propertyValue? path property = (s.keyedValue? property).map (placed path) := by
  unfold propertyValue? keyedValue? staticKey?
  simp only [DataStep.keyPath_eq]
  split
  · cases (property.field? .key).bind s.propertyKey? with
    | none => rfl
    | some name => cases property.field? .value <;> rfl
  · rfl

/-- The parts of a bare value are the values directly inside it. -/
theorem parts_of_bare {s : Source} {t : Tree} (unannotated : t.kind.isTypeWrapper = false)
    (empty : t.kind = .parenthesized → t.expressions = []) (path : Text) :
    s.parts path t = (s.inside t).map (placed path) := by
  unfold inside
  split
  · rename_i parenthesized
    rw [empty parenthesized, parts, parenthesized]
    rfl
  rw [if_neg (by simp [unannotated])]
  split
  · rename_i isObject
    rw [parts, isObject, List.map_filterMap]
    exact congrArg (List.filterMap · _) (funext (s.propertyValue?_eq path))
  split
  · rename_i isArray
    rw [parts, isArray, List.map_map]
    simp only [DataStep.positionPath_eq]
    rfl
  · rename_i notObject notArray
    unfold parts
    split
    · contradiction
    · contradiction
    · rfl

/-- The row of a leaf of a value that stands at a path. -/
def leafRow (s : Source) (exportName path : Text) (leaf : List DataStep × Tree) : LiteralRow Text :=
  ⟨exportName, leaf.1.foldl DataStep.extend path, s.stringValue leaf.2, s.span leaf.2⟩

/-- **Values that wait** give the rows of their leaves, one value after another. -/
theorem literalRowsOf_eq_flatMap (s : Source) (exportName : Text) (waiting : List PathValue) :
    s.literalRowsOf exportName waiting =
      waiting.flatMap fun v => (s.leaves v.2).map (s.leafRow exportName v.1) := by
  fun_induction s.literalRowsOf exportName waiting with
  | case1 => rfl
  | case2 path v waiting bare ih =>
    rw [List.flatMap_cons, ← ih, s.leaves_bare, bare]
    rfl
  | case3 path v waiting t bare isString ih =>
    rw [List.flatMap_cons, ← ih, s.leaves_bare, bare]
    simp only [Option.elim_some, s.leaves_of_string isString]
    rfl
  | case4 path v waiting t bare noString ih =>
    obtain ⟨unannotated, empty⟩ := bare_of_bare? v bare
    rw [List.flatMap_cons, ih, List.flatMap_append, s.leaves_bare, bare, Option.elim_some,
      s.leaves_of_inside noString, parts_of_bare unannotated empty, List.flatMap_map,
      List.map_flatMap]
    congr 1
    refine congrArg (List.flatMap · _) (funext fun w => ?_)
    rw [List.map_map]
    refine List.map_congr_left fun leaf _ => ?_
    simp only [leafRow, placed, Function.comp_apply, List.foldl_append]

/-! ## The law -/

/-- The rows of a value are its leaves, one row for each. -/
theorem literalRows_eq (s : Source) (exportName : Text) (value : Tree) :
    s.literalRows exportName value = (s.leaves value).map (s.leafRow exportName []) := by
  rw [literalRows, literalRowsOf_eq_flatMap, List.flatMap_singleton]

end Source

end JsxOrigin
