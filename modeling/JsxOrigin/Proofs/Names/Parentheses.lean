import JsxOrigin.Proofs.Syntax.Parentheses

/-!
# Names in trees with parentheses

What is known about names does not depend on parentheses. An expression with parentheses added has
the same member path and reads the same variable of the environment (`accessPath?_of_added`,
`environmentKey?_of_inside`).

**The law** of bindings (`Source.lookup_bindings_alike`): a module with parentheses added declares
the same names, and what is known about a name is the same but for its initializer, which has
parentheses added. It follows what single nodes declare (`Source.declared_alike`) along the walk
over a module; parentheses and the comments in them declare nothing (`Source.declaredIn_of_parens`).
-/

namespace JsxOrigin

open Correspondence Tree

/-- What is known about a name, but for parentheses in its initializer. -/
structure Binding.Alike (b b' : Binding Tree) : Prop where
  name : b'.name = b.name
  definition : b'.definition = b.definition
  init : Option.Rel ParensAdded b.init b'.init
  importOrigin : b'.importOrigin = b.importOrigin
  body : b'.body = b.body

namespace Source

variable (s : Source) {t u : Tree}

theorem text_of_inside (inside : t.ParensInside u) : s.text u = s.text t := by
  rw [text, text, inside.start, inside.stop]

theorem span_of_inside (inside : t.ParensInside u) : s.span u = s.span t := by
  rw [span, span, inside.start]

/-! ## Member paths -/

theorem accessPathInside?_eq (cs : List Tree) :
    s.accessPathInside? cs =
      (cs.find? fun c => c.named && c.kind != .comment).bind s.accessPath? := by
  induction cs with
  | nil => rw [accessPathInside?]; rfl
  | cons c rest ih =>
    rw [accessPathInside?, List.find?_cons, ih]
    cases c.named && c.kind != .comment <;> rfl

theorem accessPathOfObject?_eq (cs : List Tree) :
    s.accessPathOfObject? cs = (cs.find? (·.fields.contains .object)).bind s.accessPath? := by
  induction cs with
  | nil => rw [accessPathOfObject?]; rfl
  | cons c rest ih =>
    rw [accessPathOfObject?, List.find?_cons, ih]
    cases c.fields.contains .object <;> rfl

theorem accessPath?_eq (t : Tree) :
    s.accessPath? t =
      if t.kind = .parenthesized then
        (t.children.find? fun c => c.named && c.kind != .comment).bind s.accessPath?
      else if t.kind.isAccess then
        (s.accessStep? t).bind fun step => ((t.field? .object).bind s.accessPath?).bind fun base =>
          some { base with path := base.path ++ step }
      else if t.kind = .identifier then some { root := s.text t, path := [] }
      else none := by
  cases t
  rw [accessPath?, accessPathInside?_eq, accessPathOfObject?_eq]
  rfl

theorem accessStep?_of_inside (inside : t.ParensInside u) : s.accessStep? u = s.accessStep? t := by
  unfold accessStep?
  rw [inside.kind]
  split
  · rename_i isMember
    refine map_eq (inside.readField fun c found => ?_) fun p p' same => ?_
    · rw [isMember]
      exact found
    · rw [s.text_of_inside same]
  · refine bind_eq (inside.unwrapped .index) fun index index' same => ?_
    rw [same.kind, stringValue, numberKey, s.text_of_inside same]
    rfl

theorem accessPath?_of_parens {inner : Tree} (around : inner.Parens t) :
    s.accessPath? t = s.accessPath? inner := by
  induction around with
  | none fields => rw [accessPath?_eq, accessPath?_eq s inner]; rfl
  | @add t start stop fields before after _ named noComment asideBefore _ ih =>
    rw [accessPath?_eq, if_pos rfl, find?_of_asides named noComment asideBefore]
    exact ih

/-- **The member path** of an expression does not depend on parentheses. -/
theorem accessPath?_of_added {t u : Tree} (added : t.ParensAdded u) :
    s.accessPath? u = s.accessPath? t := by
  obtain ⟨inner, inside, around⟩ := added
  rw [s.accessPath?_of_parens around, accessPath?_eq, accessPath?_eq s t, inside.kind,
    s.accessStep?_of_inside inside, s.text_of_inside inside]
  have inParens : (inner.children.find? fun c => c.named && c.kind != .comment).bind s.accessPath? =
      (t.children.find? fun c => c.named && c.kind != .comment).bind s.accessPath? := by
    refine bind_eq (rel_found inside.firstExpression) fun c d h => ?_
    have smaller := size_lt_of_mem (List.mem_of_find?_eq_some h.2)
    exact accessPath?_of_added h.1.added
  have ofObject : (inner.field? .object).bind s.accessPath? =
      (t.field? .object).bind s.accessPath? := by
    refine bind_eq (rel_found (inside.field .object)) fun c d h => ?_
    have smaller := size_lt_of_mem (List.mem_of_find?_eq_some h.2)
    exact accessPath?_of_added h.1
  rw [inParens, ofObject]
termination_by t.size

/-! ## What single nodes declare -/

/-- Corresponding names of an import statement. -/
def SameSpecifier (x y : ImportSpecifier) : Prop := x.1.ParensInside y.1 ∧ y.2 = x.2

theorem namedSpecifier?_alike (inside : t.ParensInside u) :
    Option.Rel SameSpecifier (s.namedSpecifier? t) (s.namedSpecifier? u) := by
  unfold namedSpecifier?
  rw [inside.kind]
  split
  · rename_i isSpecifier
    have reads : ∀ c, t.kind.reads c = true := fun c => by rw [isSpecifier]; rfl
    have renamed := inside.readField (f := .renamed) fun c _ => reads c
    refine rel_map (inside.readField fun c _ => reads c) fun name name' same => ?_
    have localName : ((t.field? .renamed).getD name).ParensInside
        ((u.field? .renamed).getD name') := rel_getD renamed same
    refine ⟨localName, ?_⟩
    simp only [same.kind, s.text_of_inside same, s.text_of_inside localName]
  · exact .none

theorem clauseSpecifiers_alike (inside : t.ParensInside u) :
    List.Forall₂ SameSpecifier (s.clauseSpecifiers t) (s.clauseSpecifiers u) := by
  unfold clauseSpecifiers
  rw [inside.kind]
  split
  case h_1 => exact .cons ⟨inside, rfl⟩ .nil
  case h_2 isNamespace =>
    have names := inside.namedChildrenOfKind .identifier (by decide) fun c _ => by
      rw [isNamespace]; rfl
    exact List.rel_map (fun _ _ h => ⟨h.1, rfl⟩) names
  case h_3 isNamed =>
    have parts := inside.namedChildren_of_reads fun c => by rw [isNamed]; rfl
    exact List.rel_filterMap (fun _ _ h => s.namedSpecifier?_alike h) parts
  case h_4 => exact .nil

theorem importSpecifiers_alike (inside : t.ParensInside u) (isImport : t.kind = .importStatement) :
    List.Forall₂ SameSpecifier (s.importSpecifiers t) (s.importSpecifiers u) := by
  have clauses := inside.namedChildrenOfKind .importClause (by decide) fun c _ => by
    rw [isImport]; rfl
  refine List.rel_flatMap clauses fun clause clause' same => ?_
  have parts := same.1.namedChildren_of_reads fun c => by rw [same.2]; rfl
  exact List.rel_flatMap parts fun _ _ h => s.clauseSpecifiers_alike h

theorem declared_alike (inside : t.ParensInside u) :
    List.Forall₂ Binding.Alike (s.declared t) (s.declared u) := by
  unfold declared
  rw [inside.kind]
  split
  case h_1 isDeclarator =>
    have names := inside.readField (f := .name) fun c found => by rw [isDeclarator]; exact found
    generalize t.field? .name = x, u.field? .name = y at names ⊢
    cases names with
    | none => exact .nil
    | @some name name' same =>
      simp only [same.kind, s.text_of_inside same, s.span_of_inside same]
      split
      · exact .cons ⟨rfl, rfl, inside.field .value, rfl, rfl⟩ .nil
      · exact .nil
  case h_2 isFunction | h_3 isFunction =>
    have names := inside.readField (f := .name) fun c found => by
      simp only [isFunction, Kind.reads, found, Bool.true_or]
    have bodies := inside.readField (f := .body) fun c found => by
      simp only [isFunction, Kind.reads, found, Bool.or_true]
    have body := map_eq bodies fun _ _ h => s.span_of_inside h
    generalize t.field? .name = x, u.field? .name = y at names ⊢
    cases names with
    | none => exact .nil
    | @some name name' same =>
      simp only [s.text_of_inside same, s.span_of_inside same, body]
      exact .cons ⟨rfl, rfl, .none, rfl, rfl⟩ .nil
  case h_4 isImport =>
    have sources := inside.readField (f := .source) fun c _ => by rw [isImport]; rfl
    generalize t.field? .source = x, u.field? .source = y at sources ⊢
    cases sources with
    | none => exact .nil
    | @some source source' same =>
      refine List.rel_map (fun x y h => ?_) (s.importSpecifiers_alike inside isImport)
      simp only [stringValue, s.text_of_inside same]
      exact ⟨s.text_of_inside h.1, s.span_of_inside h.1, .none, by rw [h.2], rfl⟩
  case h_5 => exact .nil

/-! ## What a module declares -/

/-- What the nodes of some trees declare, in document order. -/
def declaredIn (ts : List Tree) : List (Binding Tree) :=
  (walk (·.kind ≠ .importStatement) ts).flatMap s.declared

theorem declaredIn_nil : s.declaredIn [] = [] := by
  rw [declaredIn, walk]
  rfl

theorem declaredIn_append (ts us : List Tree) :
    s.declaredIn (ts ++ us) = s.declaredIn ts ++ s.declaredIn us := by
  rw [declaredIn, walk_append, List.flatMap_append]
  rfl

theorem declaredIn_cons (t : Tree) (ts : List Tree) :
    s.declaredIn (t :: ts) = s.declaredIn [t] ++ s.declaredIn ts :=
  s.declaredIn_append [t] ts

theorem declaredIn_singleton (t : Tree) :
    s.declaredIn [t] =
      s.declared t ++ if t.kind ≠ .importStatement then s.declaredIn t.namedChildren else [] := by
  rw [declaredIn, walk_cons, walk, List.append_nil, List.flatMap_cons]
  by_cases isImport : t.kind = .importStatement <;> simp [isImport, declaredIn]

/-- What stands beside an expression in its parentheses declares nothing. -/
theorem declaredIn_of_asides {ts : List Tree} (asides : ∀ a ∈ ts, a.IsAside) :
    s.declaredIn (ts.filter (·.named)) = [] := by
  induction ts with
  | nil => exact s.declaredIn_nil
  | cons a ts ih =>
    have later := ih fun b mem => asides b (List.mem_cons_of_mem _ mem)
    rcases asides a List.mem_cons_self with unnamed | ⟨-, silent⟩
    · rw [List.filter_cons_of_neg (by simp [unnamed])]
      exact later
    · have nothing : s.declaredIn [a] = [] := by
        apply List.flatMap_eq_nil_iff.mpr
        intro n visited
        apply s.declared_eq_nil
        apply silent n
        refine mem_nodes_of_mem_walk _ _ ?_ visited
        rintro c (- | ⟨_, ⟨⟩⟩)
        exact self_mem_nodes a
      rw [List.filter_cons]
      split
      · rw [declaredIn_cons, nothing, later, List.nil_append]
      · exact later

/-- Parentheses around a node declare nothing. -/
theorem declaredIn_of_parens {inner : Tree} (around : inner.Parens t) :
    s.declaredIn [t] = s.declaredIn [inner] := by
  induction around with
  | none fields =>
    rw [declaredIn_singleton, declaredIn_singleton s inner]
    rfl
  | @add t start stop fields before after _ named _ asideBefore asideAfter ih =>
    have listed : (before ++ t :: after).filter (·.named) =
        before.filter (·.named) ++ t :: after.filter (·.named) := by
      simp [named]
    rw [declaredIn_singleton, if_pos nofun, namedChildren, listed, declaredIn_append,
      declaredIn_cons, s.declaredIn_of_asides asideBefore, s.declaredIn_of_asides asideAfter, ih,
      List.append_nil]
    rfl

theorem declaredIn_children {k : Kind} {cs ds : List Tree}
    (related : List.Forall₂ (Corresponds k) cs ds)
    (single : ∀ c ∈ cs, ∀ d, c.ParensInside d →
      List.Forall₂ Binding.Alike (s.declaredIn [c]) (s.declaredIn [d])) :
    List.Forall₂ Binding.Alike (s.declaredIn cs) (s.declaredIn ds) := by
  induction related with
  | nil =>
    rw [declaredIn_nil]
    exact .nil
  | @cons c d cs ds head _ ih =>
    obtain ⟨inner, inside, around⟩ := head.added
    have later := ih fun c mem => single c (List.mem_cons_of_mem _ mem)
    rw [declaredIn_cons, declaredIn_cons s d, s.declaredIn_of_parens around]
    exact List.rel_append (single c List.mem_cons_self inner inside) later

theorem declaredIn_alike {t u : Tree} (inside : t.ParensInside u) :
    List.Forall₂ Binding.Alike (s.declaredIn [t]) (s.declaredIn [u]) := by
  rw [declaredIn_singleton, declaredIn_singleton s u, inside.kind]
  refine List.rel_append (s.declared_alike inside) ?_
  split
  · apply s.declaredIn_children inside.namedChildren
    intro c child d insideChild
    have smaller := size_lt_of_mem (List.mem_filter.mp child).1
    exact declaredIn_alike insideChild
  · exact .nil
termination_by t.size

/-- **The bindings of a module** with parentheses added: the same names, with parentheses added in
the initializers. -/
theorem lookup_bindings_alike {root root' : Tree} (inside : root.ParensInside root') (name : Text) :
    Option.Rel Binding.Alike ((s.bindings root).lookup name) ((s.bindings root').lookup name) := by
  rw [lookup_bindings, lookup_bindings]
  apply forall₂_getLast?
  refine (forall₂_filter (s.declaredIn_alike inside) fun b b' alike => ?_).imp fun _ _ h => h.1
  rw [alike.name]

end Source

end JsxOrigin
