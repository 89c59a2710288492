import JsxOrigin.Proofs.Syntax.DocumentOrder
import JsxOrigin.Rendering.Element
import Mathlib.Algebra.Ring.Nat

/-!
# Data expressions

The data of an element stands in braces, among its children or in the attributes of its tag. The
report of an element looks only at these few levels (`Tree.Shows`), while elements stand inside the
expressions of other elements to any depth.

**The law** (`Source.elements_apportion`): in a tree in which every element has one opening tag, the
reports are those of the elements that can be reached, in document order, and every data expression
of an element that can be reached belongs to exactly one of them. So the numbers of expressions in
the reports add up to the number of data expressions.

No induction on the tree is needed for that: the kinds of the few nodes above a data expression tell
how far up its element stands (`Tree.owner_unique`).
-/

namespace JsxOrigin

namespace Tree

/-! ## What an element shows -/

/-- Whether a named node has a kind. -/
def isNamed (kind : Kind) (t : Tree) : Bool := t.named && t.kind = kind

/-- Whether a node in braces is an expression with data: no comment, and not spread. -/
def isData (t : Tree) : Bool := t.named && t.kind ≠ .comment && t.kind ≠ .spread

/-- The data expressions in the braces among the children of a node, by their positions below it. -/
def InBraces (t : Tree) (position : Position) (e : Tree) : Prop :=
  ∃ i j braces, t.children[i]? = some braces ∧ braces.isNamed .jsxExpression ∧
    braces.children[j]? = some e ∧ e.isData ∧ position = [i, j]

/-- The data expressions in the attributes of a tag, by their positions below it. -/
def InAttributes (tag : Tree) (position : Position) (e : Tree) : Prop :=
  ∃ i attr below, tag.children[i]? = some attr ∧ attr.isNamed .jsxAttribute ∧
    attr.InBraces below e ∧ position = i :: below

/-- **What an element shows**: its data expressions by their positions below it. They stand in
braces, which are a child of the element or of an attribute of its tag. -/
inductive Shows (element : Tree) : Position → Tree → Prop where
  | child {below : Position} {e : Tree} (kind : element.kind = .jsxElement)
    (inBraces : element.InBraces below e) : Shows element below e
  | ownAttribute {below : Position} {e : Tree} (kind : element.kind = .jsxSelfClosing)
    (inTag : element.InAttributes below e) : Shows element below e
  | tagAttribute {i : Nat} {tag : Tree} {below : Position} {e : Tree}
    (kind : element.kind = .jsxElement) (isChild : element.children[i]? = some tag)
    (opens : tag.kind = .jsxOpening) (inTag : tag.InAttributes below e) :
    Shows element (i :: below) e

/-- **The data expressions of a tree**: those of the elements that are reached through named
children. -/
def DataAt (root : Tree) (position : Position) (e : Tree) : Prop :=
  ∃ above below element, position = above ++ below ∧
    root.reach? (fun _ => true) above = some element ∧ element.Shows below e

/-- Whether every element of a tree has an opening tag, and no other child that is one. -/
def TagsInPlace (root : Tree) : Prop :=
  ∀ t ∈ root.nodes, t.kind = .jsxElement →
    ∃ tag, t.field? .openTag = some tag ∧ t.children.filter (·.kind = .jsxOpening) = [tag]

/-! ## The lists behind it -/

/-- The data expressions in braces. -/
def dataInside (braces : Tree) : List (Position × Tree) :=
  among isData (fun e => [([], e)]) 0 braces.children

/-- The data expressions in the braces among the children of a node. -/
def dataInBraces (t : Tree) : List (Position × Tree) :=
  among (isNamed .jsxExpression) dataInside 0 t.children

/-- The data expressions in the attributes of a tag. -/
def dataInAttributes (tag : Tree) : List (Position × Tree) :=
  among (isNamed .jsxAttribute) dataInBraces 0 tag.children

/-- The data expressions of an element, those of its tag first. -/
def dataOf (element : Tree) : List (Position × Tree) :=
  if element.kind = .jsxElement then
    among (·.kind = .jsxOpening) dataInAttributes 0 element.children ++ dataInBraces element
  else if element.kind = .jsxSelfClosing then dataInAttributes element
  else []

theorem mem_dataInBraces {t : Tree} {d : Position × Tree} :
    d ∈ t.dataInBraces ↔ t.InBraces d.1 d.2 := by
  simp only [dataInBraces, dataInside, mem_among, List.mem_singleton, Prod.mk.injEq, Nat.zero_add]
  constructor
  · rintro ⟨i, braces, below, isChild, inBraces, position, j, e, rest, isInside, data, rfl, rfl,
      rfl⟩
    exact ⟨i, j, braces, isChild, inBraces, isInside, data, position⟩
  · rintro ⟨i, j, braces, isChild, inBraces, isInside, data, position⟩
    exact ⟨i, braces, [j], isChild, inBraces, position, j, d.2, [], isInside, data, rfl, rfl, rfl⟩

theorem mem_dataInAttributes {tag : Tree} {d : Position × Tree} :
    d ∈ tag.dataInAttributes ↔ tag.InAttributes d.1 d.2 := by
  simp only [dataInAttributes, mem_among, mem_dataInBraces, Nat.zero_add]
  constructor
  · rintro ⟨i, attr, below, isChild, named, position, inBraces⟩
    exact ⟨i, attr, below, isChild, named, inBraces, position⟩
  · rintro ⟨i, attr, below, isChild, named, inBraces, position⟩
    exact ⟨i, attr, below, isChild, named, position, inBraces⟩

/-- The list of an element holds what the element shows. -/
theorem mem_dataOf {element : Tree} {d : Position × Tree} :
    d ∈ element.dataOf ↔ element.Shows d.1 d.2 := by
  obtain ⟨position, e⟩ := d
  unfold dataOf
  constructor
  · intro mem
    split at mem
    · rename_i kind
      rcases List.mem_append.mp mem with inTag | inBraces
      · obtain ⟨i, tag, below, isChild, opens, position, inside⟩ := mem_among.mp inTag
        rw [Nat.zero_add] at position
        subst position
        exact .tagAttribute kind isChild (of_decide_eq_true opens) (mem_dataInAttributes.mp inside)
      · exact .child kind (mem_dataInBraces.mp inBraces)
    · split at mem
      · rename_i kind
        exact .ownAttribute kind (mem_dataInAttributes.mp mem)
      · cases mem
  · intro shows
    cases shows with
    | child kind inBraces =>
      rw [if_pos kind]
      exact List.mem_append_right _ (mem_dataInBraces.mpr inBraces)
    | ownAttribute kind inTag =>
      rw [if_neg (by rw [kind]; decide), if_pos kind]
      exact mem_dataInAttributes.mpr inTag
    | @tagAttribute i tag below _ kind isChild opens inTag =>
      rw [if_pos kind]
      exact List.mem_append_left _ (mem_among.mpr ⟨i, tag, below, isChild, decide_eq_true opens,
        by rw [Nat.zero_add], mem_dataInAttributes.mpr inTag⟩)

/-! ## The report looks at these -/

theorem filter_namedChildren (t : Tree) (kind : Kind) :
    t.namedChildren.filter (·.kind = kind) = t.children.filter (isNamed kind) := by
  rw [namedChildren, List.filter_filter]
  exact List.filter_congr fun c _ => Bool.and_comm _ _

theorem map_snd_dataInside (braces : Tree) :
    braces.dataInside.map Prod.snd = braces.expressions.filter (·.kind ≠ .spread) := by
  rw [dataInside, map_snd_among, expressions, namedChildren, List.filter_filter, List.filter_filter]
  refine (List.flatMap_singleton' _).trans (List.filter_congr fun c _ => ?_)
  rw [isData, Bool.and_comm, Bool.and_comm c.named, Bool.and_assoc]

theorem map_snd_dataInBraces (t : Tree) :
    t.dataInBraces.map Prod.snd =
      (t.namedChildren.filter (·.kind = .jsxExpression)).flatMap fun c =>
        c.expressions.filter (·.kind ≠ .spread) := by
  rw [dataInBraces, map_snd_among, filter_namedChildren, funext map_snd_dataInside]

theorem map_snd_dataInAttributes (tag : Tree) :
    tag.dataInAttributes.map Prod.snd =
      ((tag.namedChildren.filter (·.kind = .jsxAttribute)).flatMap fun a =>
        a.namedChildren.filter (·.kind = .jsxExpression)).flatMap fun c =>
          c.expressions.filter (·.kind ≠ .spread) := by
  rw [dataInAttributes, map_snd_among, filter_namedChildren, List.flatMap_assoc,
    funext map_snd_dataInBraces]

/-- The report of an element is about the expressions that the element shows. -/
theorem map_snd_dataOf {root element : Tree} (tags : root.TagsInPlace) (mem : element ∈ root.nodes)
    (isElement : element.kind.isElement) :
    element.dataOf.map Prod.snd = element.dataExpressions element.openingTag? := by
  rw [Kind.isElement, Bool.or_eq_true, beq_iff_eq, beq_iff_eq] at isElement
  rcases isElement with kind | kind
  · obtain ⟨tag, opens, only⟩ := tags element mem kind
    have opening : element.openingTag? = some tag := by
      rw [openingTag?, if_neg (by rw [kind]; decide), opens, Option.some_or]
    rw [dataOf, if_pos kind, List.map_append, map_snd_among, only, List.flatMap_singleton,
      map_snd_dataInAttributes, map_snd_dataInBraces, ← List.flatMap_append, opening]
    unfold dataExpressions containers
    dsimp only
    rw [if_pos kind]
    rfl
  · have other : ¬ element.kind = .jsxElement := by rw [kind]; decide
    rw [dataOf, if_neg other, if_pos kind, map_snd_dataInAttributes, openingTag?, if_pos kind]
    unfold dataExpressions containers
    dsimp only
    rw [if_neg other, List.append_nil]
    rfl

/-! ## Each expression has one element -/

theorem InBraces.position {t e : Tree} {position : Position} (inBraces : t.InBraces position e) :
    ∃ i j, position = [i, j] := by
  obtain ⟨i, j, -, -, -, -, -, rfl⟩ := inBraces
  exact ⟨i, j, rfl⟩

theorem InAttributes.position {tag e : Tree} {position : Position}
    (inTag : tag.InAttributes position e) :
    ∃ i j k attr, position = [i, j, k] ∧ tag.children[i]? = some attr ∧
      attr.kind = .jsxAttribute := by
  obtain ⟨i, attr, below, isChild, named, inBraces, rfl⟩ := inTag
  obtain ⟨j, k, rfl⟩ := inBraces.position
  rw [isNamed, Bool.and_eq_true, decide_eq_true_iff] at named
  exact ⟨i, j, k, attr, rfl, isChild, named.2⟩

section Shows

variable {element e : Tree} {below : Position}

theorem Shows.isElement (shows : element.Shows below e) : element.kind.isElement = true := by
  cases shows with
  | child kind _ => rw [kind]; rfl
  | ownAttribute kind _ => rw [kind]; rfl
  | tagAttribute kind _ _ _ => rw [kind]; rfl

theorem Shows.two_le_length (shows : element.Shows below e) : 2 ≤ below.length := by
  cases shows with
  | child _ inBraces =>
    obtain ⟨i, j, rfl⟩ := inBraces.position
    exact Nat.le_refl _
  | ownAttribute _ inTag =>
    obtain ⟨i, j, k, -, rfl, -⟩ := inTag.position
    exact Nat.le_succ 2
  | tagAttribute _ _ _ inTag =>
    obtain ⟨i, j, k, -, rfl, -⟩ := inTag.position
    exact Nat.le_add_left 2 2

/-- **On the way to an expression**, no element stands between its element and the braces. -/
theorem Shows.between {step : Position} {c : Tree} (shows : element.Shows (step ++ below) e)
    (further : 2 ≤ below.length) (strictly : step ≠ [])
    (found : element.reach? (fun _ => true) step = some c) : c.kind.isElement = false := by
  obtain ⟨i, rest, rfl⟩ := List.exists_cons_of_ne_nil strictly
  obtain ⟨first, isFirst, found⟩ := child_of_reach? found
  generalize whole : i :: rest ++ below = position at shows
  have length := congrArg List.length whole
  rw [List.length_append, List.length_cons] at length
  cases shows with
  | child _ inBraces =>
    obtain ⟨_, _, rfl⟩ := inBraces.position
    simp only [List.length_cons, List.length_nil] at length
    omega
  | ownAttribute _ inTag =>
    obtain ⟨_, _, _, attr, rfl, isAttribute, kind⟩ := inTag.position
    obtain ⟨rfl, -⟩ := List.cons.inj whole
    -- one step leads to the attribute
    cases rest with
    | nil =>
      cases found
      rw [isFirst] at isAttribute
      cases isAttribute
      rw [kind]
      rfl
    | cons j rest =>
      simp only [List.length_cons, List.length_nil] at length
      omega
  | tagAttribute _ isTag opens inTag =>
    obtain ⟨_, _, _, attr, rfl, isAttribute, kind⟩ := inTag.position
    obtain ⟨rfl, later⟩ := List.cons.inj whole
    rw [isFirst] at isTag
    cases isTag
    -- one step leads to the tag, and two steps to the attribute
    cases rest with
    | nil =>
      cases found
      rw [opens]
      rfl
    | cons j rest =>
      obtain ⟨rfl, -⟩ := List.cons.inj later
      obtain ⟨second, isSecond, found⟩ := child_of_reach? found
      cases rest with
      | nil =>
        cases found
        rw [isSecond] at isAttribute
        cases isAttribute
        rw [kind]
        rfl
      | cons k rest =>
        simp only [List.length_cons, List.length_nil] at length
        omega

end Shows

/-- **One element**: an expression is shown by no two of the elements that are reached. -/
theorem owner_unique {root element element' e e' : Tree} {above above' below below' : Position}
    (found : root.reach? (fun _ => true) above = some element)
    (found' : root.reach? (fun _ => true) above' = some element')
    (shows : element.Shows below e) (shows' : element'.Shows below' e')
    (same : above ++ below = above' ++ below') : above = above' := by
  rcases List.append_eq_append_iff.mp same with ⟨step, rfl, rfl⟩ | ⟨step, rfl, rfl⟩
  · rw [reach?_append, found] at found'
    by_contra differ
    have inner := shows.between shows'.two_le_length (by simpa using differ) found'
    rw [shows'.isElement] at inner
    cases inner
  · rw [reach?_append, found'] at found
    by_contra differ
    have inner := shows'.between shows.two_le_length (by simpa using differ) found
    rw [shows.isElement] at inner
    cases inner

/-! ## The positions of an element -/

theorem dataInBraces_pairwise (t : Tree) : t.dataInBraces.Pairwise fun a b => a.1 < b.1 :=
  among_pairwise (fun _ _ => among_pairwise (fun _ _ => List.pairwise_singleton _ _) 0) 0

theorem dataInAttributes_pairwise (tag : Tree) :
    tag.dataInAttributes.Pairwise fun a b => a.1 < b.1 :=
  among_pairwise (fun c _ => c.dataInBraces_pairwise) 0

theorem nodup_of_pairwise {places : List (Position × Tree)}
    (ordered : places.Pairwise fun a b => a.1 < b.1) : (places.map Prod.fst).Nodup := by
  refine List.pairwise_map.mpr (ordered.imp ?_)
  intro a b before same
  rw [same] at before
  exact List.lt_irrefl _ before

theorem dataOf_nodup (element : Tree) : (element.dataOf.map Prod.fst).Nodup := by
  unfold dataOf
  split
  · rw [List.map_append, List.nodup_append]
    refine ⟨nodup_of_pairwise (among_pairwise (fun c _ => c.dataInAttributes_pairwise) 0),
      nodup_of_pairwise element.dataInBraces_pairwise, ?_⟩
    -- in the tag they stand two steps further down
    rintro position inTag _ inBraces rfl
    obtain ⟨d, mem, rfl⟩ := List.mem_map.mp inTag
    obtain ⟨i, tag, below, -, -, position, inside⟩ := mem_among.mp mem
    obtain ⟨d', mem', same⟩ := List.mem_map.mp inBraces
    obtain ⟨_, _, short⟩ := (mem_dataInBraces.mp mem').position
    obtain ⟨_, _, _, _, long, -⟩ := (mem_dataInAttributes.mp inside).position
    rw [← same, short, show below = [_, _, _] from long] at position
    cases position
  · split
    · exact nodup_of_pairwise element.dataInAttributes_pairwise
    · exact List.nodup_nil

/-! ## The law -/

/-- **The elements of a tree** that are reached through named children, in document order. -/
structure ElementsAt (root : Tree) (places : List (Position × Tree)) : Prop where
  ordered : places.Pairwise fun a b => a.1 < b.1
  complete : ∀ place, place ∈ places ↔
    root.reach? (fun _ => true) place.1 = some place.2 ∧ place.2.kind.isElement

/-- The elements that a walk reaches. -/
def elementPlaces (root : Tree) : List (Position × Tree) :=
  (reached (fun _ => true) root).filter (·.2.kind.isElement)

theorem elementsAt (root : Tree) : root.ElementsAt root.elementPlaces where
  ordered := (reached_pairwise _ root).filter _
  complete place := by rw [elementPlaces, List.mem_filter, mem_reached]

/-- The data expressions of elements at some places. -/
def dataAmong (places : List (Position × Tree)) : List (Position × Tree) :=
  places.flatMap fun place => place.2.dataOf.map fun d => (place.1 ++ d.1, d.2)

theorem mem_dataAmong {places : List (Position × Tree)} {d : Position × Tree} :
    d ∈ dataAmong places ↔
      ∃ place ∈ places, ∃ below, d.1 = place.1 ++ below ∧ place.2.Shows below d.2 := by
  rw [dataAmong, List.mem_flatMap]
  constructor
  · rintro ⟨place, mem, inside⟩
    obtain ⟨⟨below, e⟩, shown, rfl⟩ := List.mem_map.mp inside
    exact ⟨place, mem, below, rfl, mem_dataOf.mp shown⟩
  · rintro ⟨place, mem, below, position, shows⟩
    exact ⟨place, mem, List.mem_map.mpr
      ⟨(below, d.2), mem_dataOf.mpr shows, Prod.ext position.symm rfl⟩⟩

theorem ElementsAt.owner {root : Tree} {places : List (Position × Tree)}
    (elements : root.ElementsAt places) {d : Position × Tree} (mem : d ∈ dataAmong places) :
    ∃! place, place ∈ places ∧ ∃ below, d.1 = place.1 ++ below ∧ place.2.Shows below d.2 := by
  obtain ⟨place, isPlace, below, position, shows⟩ := mem_dataAmong.mp mem
  refine ⟨place, ⟨isPlace, below, position, shows⟩, ?_⟩
  rintro place' ⟨isPlace', below', position', shows'⟩
  have found := ((elements.complete place).mp isPlace).1
  have found' := ((elements.complete place').mp isPlace').1
  have same := owner_unique found' found shows' shows (position'.symm.trans position)
  rw [same, found] at found'
  exact Prod.ext same (Option.some.inj found').symm

theorem ElementsAt.nodup_data {root : Tree} {places : List (Position × Tree)}
    (elements : root.ElementsAt places) : ((dataAmong places).map Prod.fst).Nodup := by
  rw [dataAmong, List.map_flatMap]
  refine List.pairwise_flatMap.mpr ⟨?_, ?_⟩
  · intro place _
    rw [List.map_map]
    exact (List.pairwise_map.mp place.2.dataOf_nodup).map _ fun _ _ differ same =>
      differ (List.append_cancel_left same)
  · refine elements.ordered.imp_of_mem ?_
    intro place place' isPlace isPlace' before position inFirst _ inSecond rfl
    simp only [List.map_map, List.mem_map, Function.comp_apply] at inFirst inSecond
    obtain ⟨d, shown, rfl⟩ := inFirst
    obtain ⟨d', shown', same⟩ := inSecond
    have above := owner_unique ((elements.complete place').mp isPlace').1
      ((elements.complete place).mp isPlace).1 (mem_dataOf.mp shown') (mem_dataOf.mp shown) same
    rw [above] at before
    exact List.lt_irrefl _ before

end Tree

namespace Source

variable (s : Source) (bs : Bindings Tree)

theorem elements_eq_map (root : Tree) :
    s.elements bs root = root.elementPlaces.map fun place => s.element bs place.2 := by
  rw [elements, ← Tree.map_snd_reached, List.filter_map, List.map_map]
  rfl

/-- **Each data expression belongs to one report.** In a tree in which every element has one opening
tag, there is one report for each element that is reached through named children, in document
order; and the numbers of expressions in the reports add up to the number of data expressions, each
of which is shown by exactly one of these elements. -/
theorem elements_apportion (root : Tree) (tags : root.TagsInPlace) :
    ∃ places data : List (Position × Tree),
      root.ElementsAt places ∧
      s.elements bs root = places.map (fun place => s.element bs place.2) ∧
      (data.map Prod.fst).Nodup ∧ (∀ d, d ∈ data ↔ root.DataAt d.1 d.2) ∧
      ((s.elements bs root).map (·.expressionCount)).sum = data.length ∧
      ∀ d ∈ data, ∃! place,
        place ∈ places ∧ ∃ below, d.1 = place.1 ++ below ∧ place.2.Shows below d.2 := by
  have elements := root.elementsAt
  refine ⟨root.elementPlaces, Tree.dataAmong root.elementPlaces, elements,
    s.elements_eq_map bs root, elements.nodup_data, ?_, ?_, fun d mem => elements.owner mem⟩
  · intro d
    rw [Tree.mem_dataAmong]
    constructor
    · rintro ⟨place, mem, below, position, shows⟩
      exact ⟨place.1, below, place.2, position, ((elements.complete place).mp mem).1, shows⟩
    · rintro ⟨above, below, element, position, found, shows⟩
      exact ⟨(above, element), (elements.complete _).mpr ⟨found, shows.isElement⟩, below, position,
        shows⟩
  · rw [s.elements_eq_map, List.map_map, Tree.dataAmong, List.length_flatMap]
    refine congrArg List.sum (List.map_congr_left fun place mem => ?_)
    obtain ⟨found, isElement⟩ := List.mem_filter.mp mem
    have visited : place.2 ∈ Tree.walk (fun _ => true) [root] := by
      rw [← Tree.map_snd_reached]
      exact List.mem_map_of_mem found
    show (place.2.dataExpressions place.2.openingTag?).length = _
    rw [← Tree.map_snd_dataOf tags (Tree.mem_nodes_of_mem_walk_root visited) isElement,
      List.length_map, List.length_map]

/-- An element that shows another one in an attribute, and a number among its children. The other
element shows a number in an attribute. -/
def nestedElements : Tree :=
  let node (kind : Kind) (children : List Tree) : Tree :=
    { kind, named := true, start := 0, stop := 0, fields := [], children }
  let inner := node .jsxSelfClosing
    [node .jsxAttribute [node .jsxExpression [node .number []]]]
  let tag := node .jsxOpening [node .jsxAttribute [node .jsxExpression [inner, node .comment []]]]
  node .jsxElement [{ tag with fields := [.openTag] }, node .jsxExpression [node .number []]]

/-- The law for one element inside of another one: two expressions belong to the outer one, and one
to the inner one. -/
theorem elements_apportion_nested :
    nestedElements.TagsInPlace ∧
      ((elements ⟨[], []⟩ [] nestedElements).map (·.expressionCount)) = [2, 1] ∧
      ∃ places data : List (Position × Tree),
        nestedElements.ElementsAt places ∧
        elements ⟨[], []⟩ [] nestedElements =
          places.map (fun place => element ⟨[], []⟩ [] place.2) ∧
        (data.map Prod.fst).Nodup ∧ (∀ d, d ∈ data ↔ nestedElements.DataAt d.1 d.2) ∧
        ((elements ⟨[], []⟩ [] nestedElements).map (·.expressionCount)).sum = data.length ∧
        ∀ d ∈ data, ∃! place,
          place ∈ places ∧ ∃ below, d.1 = place.1 ++ below ∧ place.2.Shows below d.2 := by
  have tags : nestedElements.TagsInPlace := by
    have only : nestedElements.nodes.filter (·.kind = .jsxElement) = [nestedElements] := rfl
    intro t mem kind
    have listed : t ∈ nestedElements.nodes.filter (·.kind = .jsxElement) :=
      List.mem_filter.mpr ⟨mem, decide_eq_true kind⟩
    rw [only, List.mem_singleton] at listed
    rw [listed]
    exact ⟨_, rfl, rfl⟩
  exact ⟨tags, by decide +kernel, elements_apportion _ _ nestedElements tags⟩

end Source

end JsxOrigin
