import JsxOrigin.Proofs.Correspondence
import JsxOrigin.Proofs.ModuleGraph.Declarations

/-!
# Trees with parentheses added

Parentheses can be put around every expression. `ParensAdded t u` says that `u` is `t` with
parentheses added, inside it and around it, at any number of places and any number of times.

A place for parentheses is a named child that its parent does not look at for itself, neither by its
kind nor in a field that is no expression (`Kind.reads`). Such are the value of a declarator, the
object and the index of an access, the function of a call, the callee of a constructor call, an
argument, an operand, the expression of a template substitution, the value of a pair and an element
of an array literal. The node inside keeps its offsets, the parentheses take its fields, and
comments may stand beside it.

**The law** of lookups (`ParensInside.field`, `ParensInside.expressions`, `ParensInside.elements`):
whatever is found in a tree is found in the tree with parentheses at the same place, with
parentheses added; what a node looks at for itself has none around it. Taking the parentheses off
leads to corresponding nodes (`ParensAdded.unwrap`).
-/

namespace JsxOrigin

/-! ## Places for parentheses -/

/-- Whether a node of a kind looks at a child for itself, and not as an expression. -/
def Kind.reads (k : Kind) (c : Tree) : Bool :=
  match k with
  | .declarator => c.fields.contains .name
  | .functionDeclaration | .generatorDeclaration =>
    c.fields.contains .name || c.fields.contains .body
  | .member => c.fields.contains .property
  | .call | .construct => c.fields.contains .arguments
  | .unary | .binary => c.fields.contains .operator
  | .pair => c.fields.contains .key
  | .template => c.kind == .substitution
  | .object => c.kind == .pair || c.kind == .shorthandProperty
  | .array => c.kind == .comma || c.kind == .openBracket || c.kind == .closeBracket
  | .importStatement | .importClause | .namespaceImport | .namedImports | .importSpecifier => true
  | _ => false

/-- Whether parentheses can be put around a child of a node of a kind. -/
def Kind.takesParens (k : Kind) (c : Tree) : Bool :=
  c.named && c.kind != .comment && c.kind != .spread && !k.reads c

namespace Tree

open Correspondence

/-- What can stand beside an expression in its parentheses: unnamed nodes, and comments. -/
def IsAside (t : Tree) : Prop :=
  t.named = false ∨ (t.kind = .comment ∧ ∀ n ∈ t.nodes, n.kind.declaresNames = false)

/-- A node in any number of parentheses. What matters is where the outermost ones are found, so the
fields of the node itself are left open. -/
inductive Parens (inner : Tree) : Tree → Prop where
  | none (fields : List Field) : Parens inner { inner with fields }
  | add {t : Tree} (start stop : Nat) (fields : List Field) {before after : List Tree}
    (around : Parens inner t) (named : t.named = true) (noComment : t.kind ≠ .comment)
    (asideBefore : ∀ a ∈ before, a.IsAside) (asideAfter : ∀ a ∈ after, a.IsAside) :
    Parens inner ⟨.parenthesized, true, start, stop, fields, before ++ t :: after⟩

/-- Children of a node of a kind, and the same children with parentheses added: inside a child, or
inside and around it. -/
inductive AddsParens : Kind → List Tree → List Tree → Prop where
  | nil (k : Kind) : AddsParens k [] []
  | keep {k : Kind} {c : Tree} {children rest rest' : List Tree}
    (inside : AddsParens c.kind c.children children) (later : AddsParens k rest rest') :
    AddsParens k (c :: rest) ({ c with children } :: rest')
  | wrap {k : Kind} {c t : Tree} {children rest rest' : List Tree} (takes : k.takesParens c = true)
    (inside : AddsParens c.kind c.children children) (around : Parens { c with children } t)
    (sameFields : t.fields = c.fields) (later : AddsParens k rest rest') :
    AddsParens k (c :: rest) (t :: rest')

/-- **Parentheses are added inside a node.** -/
structure ParensInside (t u : Tree) : Prop where
  kind : u.kind = t.kind
  named : u.named = t.named
  start : u.start = t.start
  stop : u.stop = t.stop
  children : AddsParens t.kind t.children u.children

/-- **Parentheses are added inside and around a node.** -/
def ParensAdded (t u : Tree) : Prop := ∃ inner, t.ParensInside inner ∧ inner.Parens u

/-- A child of a node of a kind, and the child that stands for it with parentheses added. -/
structure Corresponds (k : Kind) (c d : Tree) : Prop where
  fields : d.fields = c.fields
  added : c.ParensAdded d
  /-- Parentheses are around it only at a place for them. -/
  shape : c.ParensInside d ∨ (k.takesParens c = true ∧ d.named = true ∧ d.kind = .parenthesized)

theorem ParensInside.withFields {t u : Tree} (inside : t.ParensInside u) (fields : List Field) :
    t.ParensInside { u with fields } :=
  ⟨inside.kind, inside.named, inside.start, inside.stop, inside.children⟩

theorem Parens.refl (t : Tree) : t.Parens t := by
  cases t with
  | mk _ _ _ _ fields _ => exact .none fields

theorem ParensInside.added {t u : Tree} (inside : t.ParensInside u) : t.ParensAdded u :=
  ⟨u, inside, Parens.refl u⟩

/-- **Children correspond one by one.** -/
theorem AddsParens.corresponds {k : Kind} {cs ds : List Tree} (adds : AddsParens k cs ds) :
    List.Forall₂ (Corresponds k) cs ds := by
  induction adds with
  | nil k => exact .nil
  | @keep k c children rest rest' inside _ _ ih =>
    have kept : c.ParensInside { c with children } := ⟨rfl, rfl, rfl, rfl, inside⟩
    exact .cons ⟨rfl, kept.added, .inl kept⟩ ih
  | @wrap k c t children rest rest' takes inside around sameFields _ _ ih =>
    have kept : c.ParensInside { c with children } := ⟨rfl, rfl, rfl, rfl, inside⟩
    refine .cons ⟨sameFields, ⟨_, kept, around⟩, ?_⟩ ih
    cases around with
    | none fields => exact .inl (kept.withFields fields)
    | add => exact .inr ⟨takes, rfl, rfl⟩

theorem ParensInside.corresponds {t u : Tree} (inside : t.ParensInside u) :
    List.Forall₂ (Corresponds t.kind) t.children u.children :=
  inside.children.corresponds

/-! ## What a look at a child tells -/

namespace Corresponds

variable {k : Kind} {c d : Tree}

theorem named (h : Corresponds k c d) : d.named = c.named := by
  rcases h.shape with inside | ⟨takes, named, -⟩
  · exact inside.named
  · simp only [Kind.takesParens, Bool.and_eq_true] at takes
    rw [named, takes.1.1.1]

/-- A kind at which no parentheses go around a child is seen on both sides. -/
theorem kind_iff (h : Corresponds k c d) {kind : Kind} (noParens : kind ≠ .parenthesized)
    (fixed : c.kind = kind → k.takesParens c = false) : d.kind = kind ↔ c.kind = kind := by
  rcases h.shape with inside | ⟨takes, -, isParens⟩
  · rw [inside.kind]
  · constructor
    · intro same
      exact absurd (same.symm.trans isParens) noParens
    · intro same
      rw [fixed same] at takes
      cases takes

theorem comment_iff (h : Corresponds k c d) : d.kind = .comment ↔ c.kind = .comment :=
  h.kind_iff (by decide) fun same => by simp [Kind.takesParens, same]

theorem spread_iff (h : Corresponds k c d) : d.kind = .spread ↔ c.kind = .spread :=
  h.kind_iff (by decide) fun same => by simp [Kind.takesParens, same]

/-- What a node looks at for itself has no parentheses around it. -/
theorem inside_of_reads (h : Corresponds k c d) (reads : k.reads c = true) : c.ParensInside d := by
  rcases h.shape with inside | ⟨takes, -⟩
  · exact inside
  · simp [Kind.takesParens, reads] at takes

end Corresponds

/-! ## Lookups -/

namespace ParensInside

variable {t u : Tree} (inside : t.ParensInside u)
include inside

theorem find?_field (f : Field) :
    Option.Rel (fun c d => Corresponds t.kind c d ∧ c.fields.contains f = true) (t.field? f)
      (u.field? f) :=
  forall₂_find? inside.corresponds fun c d h => by rw [h.fields]

/-- The expression in a field, with parentheses added. -/
theorem field (f : Field) : Option.Rel ParensAdded (t.field? f) (u.field? f) :=
  rel_imp (inside.find?_field f) fun _ _ h => h.1.added

/-- A field that a node reads for itself has no parentheses around what is in it. -/
theorem readField {f : Field}
    (reads : ∀ c : Tree, c.fields.contains f = true → t.kind.reads c = true) :
    Option.Rel ParensInside (t.field? f) (u.field? f) :=
  rel_imp (inside.find?_field f) fun c _ h => h.1.inside_of_reads (reads c h.2)

theorem namedChildren :
    List.Forall₂ (Corresponds t.kind) t.namedChildren u.namedChildren :=
  (forall₂_filter inside.corresponds fun _ _ h => h.named.symm).imp fun _ _ h => h.1

theorem expressions : List.Forall₂ (Corresponds t.kind) t.expressions u.expressions :=
  (forall₂_filter inside.namedChildren fun _ _ h => by simp [h.comment_iff]).imp fun _ _ h => h.1

theorem firstExpression :
    Option.Rel (Corresponds t.kind) (t.children.find? fun c => c.named && c.kind != .comment)
      (u.children.find? fun c => c.named && c.kind != .comment) := by
  refine rel_imp (forall₂_find? inside.corresponds fun c d h => ?_) fun _ _ h => h.1
  rw [h.named, Bool.eq_iff_iff]
  simp [h.comment_iff]

/-- The expressions that a node lists, without the spread ones. -/
theorem unspread :
    List.Forall₂ ParensAdded (t.expressions.filter (·.kind ≠ .spread))
      (u.expressions.filter (·.kind ≠ .spread)) :=
  (forall₂_filter inside.expressions fun _ _ h => by simp [h.spread_iff]).imp fun _ _ h => h.1.added

/-- A node that reads all of its children has no parentheses around them. -/
theorem namedChildren_of_reads (reads : ∀ c : Tree, t.kind.reads c = true) :
    List.Forall₂ ParensInside t.namedChildren u.namedChildren :=
  inside.namedChildren.imp fun c _ h => h.inside_of_reads (reads c)

/-- Children of a kind that a node looks for have no parentheses around them. -/
theorem namedChildrenOfKind (kind : Kind) (noParens : kind ≠ .parenthesized)
    (reads : ∀ c : Tree, c.kind = kind → t.kind.reads c = true) :
    List.Forall₂ (fun c d => c.ParensInside d ∧ c.kind = kind)
      (t.namedChildren.filter (·.kind = kind)) (u.namedChildren.filter (·.kind = kind)) := by
  refine (forall₂_filter inside.namedChildren fun c d h => ?_).imp fun c d h => ?_
  · have fixed : c.kind = kind → t.kind.takesParens c = false := fun same => by
      simp [Kind.takesParens, reads c same]
    simp [h.kind_iff noParens fixed]
  · have same : c.kind = kind := of_decide_eq_true h.2
    exact ⟨h.1.inside_of_reads (reads c same), same⟩

end ParensInside

/-! ## Array literals -/

/-- Corresponding elements, at the same position. -/
def SameElement (x y : Nat × Tree) : Prop := y.1 = x.1 ∧ Corresponds .array x.2 y.2

theorem forall₂_elementsFrom {cs ds : List Tree} (related : List.Forall₂ (Corresponds .array) cs ds)
    (position : Nat) (filled : Bool) :
    List.Forall₂ SameElement (elementsFrom position filled cs)
      (elementsFrom position filled ds) := by
  have mark : ∀ {c d}, Corresponds .array c d →
      ∀ kind ∈ [Kind.comma, .openBracket, .closeBracket, .comment],
        d.kind = kind ↔ c.kind = kind := by
    intro c d h kind listed
    refine h.kind_iff ?_ fun same => ?_
    · rintro rfl
      simp at listed
    · simp only [List.mem_cons, List.not_mem_nil, or_false] at listed
      rcases listed with rfl | rfl | rfl | rfl <;> simp [Kind.takesParens, Kind.reads, same]
  induction related generalizing position filled with
  | nil => exact .nil
  | @cons c d cs ds head _ ih =>
    have comma := mark head .comma (by simp)
    have opening := mark head .openBracket (by simp)
    have closing := mark head .closeBracket (by simp)
    rw [elementsFrom, elementsFrom, head.named]
    simp only [comma, opening, closing, head.comment_iff]
    split
    · exact ih _ _
    · split
      · exact ih _ _
      · split
        · exact .cons ⟨rfl, head⟩ (ih _ _)
        · exact ih _ _

/-- The elements of an array literal, without the spread ones. -/
theorem ParensInside.elements {t u : Tree} (inside : t.ParensInside u) (isArray : t.kind = .array) :
    List.Forall₂ SameElement (t.elements.filter (·.2.kind ≠ .spread))
      (u.elements.filter (·.2.kind ≠ .spread)) := by
  have related := inside.corresponds
  rw [isArray] at related
  have sameSpread : ∀ x y, SameElement x y →
      decide (x.2.kind ≠ .spread) = decide (y.2.kind ≠ .spread) := fun x y h => by
    simp [h.2.spread_iff]
  exact (forall₂_filter (forall₂_elementsFrom related 0 false) sameSpread).imp fun _ _ h => h.1

/-! ## Taking parentheses off -/

theorem unwrap_eq (t : Tree) :
    t.unwrap = if t.kind = .parenthesized then (unwrapFirst t.children).getD t else t := by
  cases t
  rw [unwrap]

theorem unwrapFirst_eq (cs : List Tree) :
    unwrapFirst cs = (cs.find? fun c => c.named && c.kind != .comment).map unwrap := by
  induction cs with
  | nil => rw [unwrapFirst, List.find?_nil, Option.map_none]
  | cons c rest ih =>
    rw [unwrapFirst, List.find?_cons, ih]
    cases c.named && c.kind != .comment <;> rfl

/-- The first expression in parentheses. -/
theorem head?_expressions (t : Tree) :
    t.expressions.head? = t.children.find? fun c => c.named && c.kind != .comment := by
  rw [expressions, Tree.namedChildren, List.filter_filter, List.head?_filter]
  refine congrArg (List.find? · t.children) (funext fun c => ?_)
  rw [Bool.and_comm, bne, beq_eq_decide, decide_not]

theorem IsAside.passed {a : Tree} (aside : a.IsAside) :
    (a.named && a.kind != .comment) = false := by
  rcases aside with unnamed | ⟨comment, -⟩
  · simp [unnamed]
  · simp [comment]

/-- The first expression in parentheses is the one that they are around. -/
theorem find?_of_asides {t : Tree} {before after : List Tree} (named : t.named = true)
    (noComment : t.kind ≠ .comment) (asideBefore : ∀ a ∈ before, a.IsAside) :
    (before ++ t :: after).find? (fun c => c.named && c.kind != .comment) = some t := by
  rw [List.find?_append, List.find?_eq_none.mpr, Option.none_or, List.find?_cons_of_pos]
  · simp [named, noComment]
  · intro a mem
    simp [(asideBefore a mem).passed]

/-- Where a node is found does not matter for what is in its parentheses. -/
theorem unwrap_withFields (t : Tree) (fields : List Field) :
    ∃ fields', ({ t with fields } : Tree).unwrap = { t.unwrap with fields := fields' } := by
  rw [unwrap_eq, unwrap_eq t]
  show ∃ fields', (if t.kind = _ then (unwrapFirst t.children).getD _ else _) = _
  split
  · cases unwrapFirst t.children with
    | none => exact ⟨fields, rfl⟩
    | some first =>
      refine ⟨first.fields, ?_⟩
      cases first
      rfl
  · exact ⟨fields, rfl⟩

/-- Parentheses around a node come off it. -/
theorem Parens.unwrap {inner t : Tree} (around : inner.Parens t) :
    ∃ fields, t.unwrap = { inner.unwrap with fields } := by
  induction around with
  | none fields => exact unwrap_withFields inner fields
  | @add t start stop fields before after _ named noComment asideBefore _ ih =>
    rw [unwrap_eq, if_pos rfl, unwrapFirst_eq, find?_of_asides named noComment asideBefore]
    exact ih

theorem ParensInside.unwrap {t u : Tree} (inside : t.ParensInside u) :
    t.unwrap.ParensInside u.unwrap := by
  rw [unwrap_eq t, unwrap_eq u, inside.kind]
  split
  · have found := inside.firstExpression
    rw [unwrapFirst_eq, unwrapFirst_eq]
    generalize first : t.children.find? _ = x at found ⊢
    generalize u.children.find? _ = y at found ⊢
    cases found with
    | none => exact inside
    | @some c d h =>
      -- The law holds for the first expression, which is smaller; what is around it comes off.
      have smaller := size_lt_of_mem (List.mem_of_find?_eq_some first)
      obtain ⟨inner, insideFirst, around⟩ := h.added
      obtain ⟨fields, off⟩ := around.unwrap
      show (Tree.unwrap c).ParensInside (Tree.unwrap d)
      rw [off]
      exact insideFirst.unwrap.withFields fields
  · exact inside
termination_by t.size

/-- **Without the parentheses** around them, corresponding expressions differ inside only. -/
theorem ParensAdded.unwrap {t u : Tree} (added : t.ParensAdded u) :
    t.unwrap.ParensInside u.unwrap := by
  obtain ⟨inner, inside, around⟩ := added
  obtain ⟨fields, off⟩ := around.unwrap
  rw [off]
  exact inside.unwrap.withFields fields

theorem ParensInside.unwrapped {t u : Tree} (inside : t.ParensInside u) (f : Field) :
    Option.Rel ParensInside (t.unwrapped? f) (u.unwrapped? f) :=
  rel_map (inside.field f) fun _ _ added => added.unwrap

end Tree

end JsxOrigin
