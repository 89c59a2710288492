import JsxOrigin.Syntax.Kind

/-!
# Syntax trees

A tree is a node with its children in document order. A node knows the fields of its parent in which
it is found; a field is looked up as the first child that is found in it.

`Tree.unwrap` strips parentheses, `Tree.expressions` gives the expressions that a node lists, and
`Tree.elements` the elements of an array literal with their positions. `Tree.walk` lists the nodes
that a pass over a module visits, in document order.
-/

namespace JsxOrigin

/-- A syntax tree. -/
structure Tree where
  kind : Kind
  /-- Whether the node is named in the grammar; punctuation and keywords are not. -/
  named : Bool
  /-- The offset of the first byte. -/
  start : Nat
  /-- The offset after the last byte. -/
  stop : Nat
  /-- The fields of the parent in which the node is found. -/
  fields : List Field
  children : List Tree
deriving Inhabited

namespace Tree

/-- The children that are named in the grammar. -/
def namedChildren (t : Tree) : List Tree := t.children.filter (·.named)

/-- The child in a field. -/
def field? (t : Tree) (f : Field) : Option Tree := t.children.find? (·.fields.contains f)

/-- The first named child of a kind. -/
def childOfKind? (t : Tree) (kind : Kind) : Option Tree :=
  t.namedChildren.find? (·.kind == kind)

/-- The expressions that a node lists: its named children without the comments. -/
def expressions (t : Tree) : List Tree := t.namedChildren.filter (·.kind ≠ .comment)

/-! ## Parentheses -/

mutual

/-- An expression without the parentheses around it. Parentheses around nothing stay. -/
def unwrap : Tree → Tree
  | ⟨kind, named, start, stop, fields, children⟩ =>
    let t : Tree := ⟨kind, named, start, stop, fields, children⟩
    if kind = .parenthesized then (unwrapFirst children).getD t else t

/-- The first expression of a list of children, without the parentheses around it. -/
def unwrapFirst : List Tree → Option Tree
  | [] => none
  | c :: rest => if c.named && c.kind != .comment then some (unwrap c) else unwrapFirst rest

end

/-- The expression in a field, without the parentheses around it. -/
def unwrapped? (t : Tree) (f : Field) : Option Tree := (t.field? f).map unwrap

/-! ## Array literals -/

/-- The elements among the children of an array literal, counted from a position. A comma moves on
to the next position, so a hole has a position and no element; `filled` says that the position
already has one. -/
def elementsFrom (position : Nat) (filled : Bool) : List Tree → List (Nat × Tree)
  | [] => []
  | c :: rest =>
    if c.kind = .comma then elementsFrom (position + 1) false rest
    else if c.kind = .openBracket ∨ c.kind = .closeBracket ∨ c.kind = .comment then
      elementsFrom position filled rest
    else if c.named && !filled then (position, c) :: elementsFrom position true rest
    else elementsFrom position filled rest

/-- The elements of an array literal with their positions. -/
def elements (t : Tree) : List (Nat × Tree) := elementsFrom 0 false t.children

/-! ## Size -/

mutual

/-- The number of nodes of a tree. -/
def size : Tree → Nat
  | ⟨_, _, _, _, _, children⟩ => sizeOfAll children + 1

/-- The number of nodes of a list of trees. -/
def sizeOfAll : List Tree → Nat
  | [] => 0
  | c :: rest => size c + sizeOfAll rest

end

theorem size_eq (t : Tree) : t.size = sizeOfAll t.children + 1 := by
  cases t
  rw [size]

theorem sizeOfAll_append (xs ys : List Tree) :
    sizeOfAll (xs ++ ys) = sizeOfAll xs + sizeOfAll ys := by
  induction xs with
  | nil => simp [sizeOfAll]
  | cons x xs ih => simp [sizeOfAll, ih, Nat.add_assoc]

theorem sizeOfAll_filter_le (p : Tree → Bool) (ts : List Tree) :
    sizeOfAll (ts.filter p) ≤ sizeOfAll ts := by
  induction ts with
  | nil => simp
  | cons t ts ih =>
    by_cases h : p t <;> simp [h, sizeOfAll] <;> omega

theorem sizeOfAll_namedChildren_lt (t : Tree) : sizeOfAll t.namedChildren < t.size := by
  have := sizeOfAll_filter_le (·.named) t.children
  rw [size_eq, namedChildren]
  omega

theorem size_lt_of_mem {t c : Tree} (h : c ∈ t.children) : c.size < t.size := by
  rw [size_eq t]
  generalize t.children = cs at h ⊢
  induction cs with
  | nil => simp at h
  | cons x xs ih =>
    rcases List.mem_cons.1 h with rfl | h
    · rw [sizeOfAll]
      omega
    · have := ih h
      rw [sizeOfAll]
      omega

/-! ## Walks -/

/-- The nodes that a pass over a module visits: of the trees that wait, the first one is visited,
and its named children come before all others if `enter` allows to go below it. -/
def walk (enter : Tree → Bool) : List Tree → List Tree
  | [] => []
  | t :: waiting =>
    t :: if enter t then walk enter (t.namedChildren ++ waiting) else walk enter waiting
termination_by waiting => sizeOfAll waiting
decreasing_by
  · have := sizeOfAll_namedChildren_lt t
    rw [sizeOfAll_append, sizeOfAll]
    omega
  · have := size_eq t
    rw [sizeOfAll]
    omega

mutual

/-- All nodes of a tree, also unnamed ones, in document order. -/
def nodes : Tree → List Tree
  | ⟨kind, named, start, stop, fields, children⟩ =>
    ⟨kind, named, start, stop, fields, children⟩ :: nodesOf children

/-- All nodes of a list of trees. -/
def nodesOf : List Tree → List Tree
  | [] => []
  | c :: rest => nodes c ++ nodesOf rest

end

end Tree

end JsxOrigin
