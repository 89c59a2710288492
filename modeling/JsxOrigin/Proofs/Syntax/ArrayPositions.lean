import JsxOrigin.Syntax.Tree

/-!
# Positions in array literals

An array literal has slots, each of which holds an element or is a hole. Its children are an opening
bracket, the slots with commas between them, and a closing bracket; comments may stand anywhere
among them (`Tree.ArrayOf`).

**The law** (`Tree.elements_at_positions`): an array literal has the elements of its slots, in order
and each at the position of its slot. Whatever the children of a node are, also if several elements
stand between two commas or brackets are missing, positions grow from element to element, and the
position of an element is the number of commas before it.
-/

namespace JsxOrigin

namespace Tree

/-! ## Slots -/

/-- Whether a node can fill a slot of an array literal. -/
def FillsSlot (t : Tree) : Prop :=
  t.named = true ∧ t.kind ≠ .comma ∧ t.kind ≠ .openBracket ∧ t.kind ≠ .closeBracket ∧
    t.kind ≠ .comment

instance (t : Tree) : Decidable t.FillsSlot :=
  inferInstanceAs (Decidable (_ ∧ _))

/-- **The nodes of slots**: the elements, in order, with a comma between two slots. A comma may also
follow the last slot. -/
inductive Slots : List (Option Tree) → List Tree → Prop
  | nil : Slots [] []
  | last {slot : Option Tree} (fills : ∀ x ∈ slot, x.FillsSlot) : Slots [slot] slot.toList
  | next {slot : Option Tree} {comma : Tree} {slots : List (Option Tree)} {nodes : List Tree}
      (fills : ∀ x ∈ slot, x.FillsSlot) (isComma : comma.kind = .comma)
      (rest : Slots slots nodes) : Slots (slot :: slots) (slot.toList ++ comma :: nodes)

/-- **The children of an array literal** with given slots: the nodes of the slots in brackets, with
comments anywhere. -/
def ArrayOf (slots : List (Option Tree)) (children : List Tree) : Prop :=
  ∃ opening nodes closing, opening.kind = .openBracket ∧ Slots slots nodes ∧
    closing.kind = .closeBracket ∧
    children.filter (·.kind ≠ .comment) = opening :: (nodes ++ [closing])

/-- The elements of slots with the positions of their slots, counted from a position. -/
def placedFrom (position : Nat) (slots : List (Option Tree)) : List (Nat × Tree) :=
  (slots.zipIdx position).filterMap fun slot => slot.1.map fun x => (slot.2, x)

/-! ## One child -/

section Child

variable {c : Tree} (position : Nat) (filled : Bool) (rest : List Tree)

theorem elementsFrom_comma (isComma : c.kind = .comma) :
    elementsFrom position filled (c :: rest) = elementsFrom (position + 1) false rest := by
  rw [elementsFrom, if_pos isComma]

theorem elementsFrom_mark
    (isMark : c.kind = .openBracket ∨ c.kind = .closeBracket ∨ c.kind = .comment) :
    elementsFrom position filled (c :: rest) = elementsFrom position filled rest := by
  have noComma : c.kind ≠ .comma := by
    rcases isMark with same | same | same <;> rw [same] <;> decide
  rw [elementsFrom, if_neg noComma, if_pos isMark]

theorem elementsFrom_element (fills : c.FillsSlot) :
    elementsFrom position false (c :: rest) = (position, c) :: elementsFrom position true rest := by
  obtain ⟨named, noComma, noOpening, noClosing, noComment⟩ := fills
  rw [elementsFrom, if_neg noComma, if_neg (by simp [noOpening, noClosing, noComment]),
    if_pos (by simp [named])]

end Child

/-! ## Well-formed literals -/

/-- Comments do not matter, wherever they stand. -/
theorem elementsFrom_filter_comments (position : Nat) (filled : Bool) (ts : List Tree) :
    elementsFrom position filled (ts.filter (·.kind ≠ .comment)) =
      elementsFrom position filled ts := by
  fun_induction elementsFrom position filled ts with
  | case1 => rfl
  | case2 position filled c rest isComma ih =>
    rw [List.filter_cons_of_pos (by simp [isComma]), elementsFrom_comma _ _ _ isComma, ih]
  | case3 position filled c rest noComma isMark ih =>
    by_cases isComment : c.kind = .comment
    · rw [List.filter_cons_of_neg (by simp [isComment]), ih]
    · rw [List.filter_cons_of_pos (by simp [isComment]), elementsFrom_mark _ _ _ isMark, ih]
  | case4 position filled c rest noComma noMark free ih =>
    have noComment : c.kind ≠ .comment := fun same => noMark (.inr (.inr same))
    rw [List.filter_cons_of_pos (by simp [noComment]), elementsFrom, if_neg noComma, if_neg noMark,
      if_pos free, ih]
  | case5 position filled c rest noComma noMark taken ih =>
    have noComment : c.kind ≠ .comment := fun same => noMark (.inr (.inr same))
    rw [List.filter_cons_of_pos (by simp [noComment]), elementsFrom, if_neg noComma, if_neg noMark,
      if_neg taken, ih]

@[simp] theorem placedFrom_nil (position : Nat) : placedFrom position [] = [] := rfl

@[simp] theorem placedFrom_hole (position : Nat) (slots : List (Option Tree)) :
    placedFrom position (none :: slots) = placedFrom (position + 1) slots := rfl

@[simp] theorem placedFrom_element (position : Nat) (x : Tree) (slots : List (Option Tree)) :
    placedFrom position (some x :: slots) = (position, x) :: placedFrom (position + 1) slots := rfl

/-- **The nodes of slots** give the elements of the slots, at their positions. -/
theorem elementsFrom_slots {slots : List (Option Tree)} {nodes : List Tree}
    (laidOut : Slots slots nodes) {closing : Tree} (closes : closing.kind = .closeBracket)
    (position : Nat) :
    elementsFrom position false (nodes ++ [closing]) = placedFrom position slots := by
  have ends (position : Nat) (filled : Bool) : elementsFrom position filled [closing] = [] := by
    rw [elementsFrom_mark _ _ _ (.inr (.inl closes)), elementsFrom]
  induction laidOut generalizing position with
  | nil => exact ends position false
  | @last slot fills =>
    cases slot with
    | none => exact ends position false
    | some x =>
      rw [Option.toList_some, List.singleton_append, elementsFrom_element _ _ (fills x rfl), ends,
        placedFrom_element, placedFrom_nil]
  | @next slot comma slots nodes fills isComma _ ih =>
    cases slot with
    | none =>
      rw [Option.toList_none, List.nil_append, List.cons_append, elementsFrom_comma _ _ _ isComma,
        ih, placedFrom_hole]
    | some x =>
      rw [Option.toList_some, List.singleton_append, List.cons_append, List.cons_append,
        elementsFrom_element _ _ (fills x rfl), elementsFrom_comma _ _ _ isComma, ih,
        placedFrom_element]

/-! ## Any children -/

/-- The elements of a node are among its children, in their order. -/
theorem elementsFrom_sublist (position : Nat) (filled : Bool) (ts : List Tree) :
    ((elementsFrom position filled ts).map Prod.snd).Sublist ts := by
  fun_induction elementsFrom position filled ts with
  | case1 => exact .slnil
  | case2 position filled c rest _ ih => exact ih.cons c
  | case3 position filled c rest _ _ ih => exact ih.cons c
  | case4 position filled c rest _ _ _ ih => exact ih.cons_cons c
  | case5 position filled c rest _ _ _ ih => exact ih.cons c

/-- The elements come at positions that grow, from the one after the last that is filled. -/
theorem elementsFrom_pairwise (position : Nat) (filled : Bool) (ts : List Tree) :
    (elementsFrom position filled ts).Pairwise (·.1 < ·.1) ∧
      ∀ e ∈ elementsFrom position filled ts, position ≤ e.1 ∧ (filled = true → position < e.1) := by
  fun_induction elementsFrom position filled ts with
  | case1 => simp
  | case2 position filled c rest _ ih =>
    refine ⟨ih.1, fun e mem => ?_⟩
    have := (ih.2 e mem).1
    omega
  | case3 position filled c rest _ _ ih => exact ih
  | case4 position filled c rest _ _ free ih =>
    have later : ∀ e ∈ elementsFrom position true rest, position < e.1 := fun e mem =>
      (ih.2 e mem).2 rfl
    have isFree : filled = false := by
      rw [Bool.and_eq_true] at free
      simpa using free.2
    refine ⟨List.pairwise_cons.mpr ⟨later, ih.1⟩, fun e mem => ?_⟩
    rcases List.mem_cons.mp mem with rfl | mem
    · simp [isFree]
    · have := later e mem
      omega
  | case5 position filled c rest _ _ _ ih => exact ih

/-- The number of commas among nodes. -/
def commas (ts : List Tree) : Nat := ts.countP (·.kind = .comma)

theorem commas_cons_of_comma {c : Tree} (isComma : c.kind = .comma) (ts : List Tree) :
    commas (c :: ts) = commas ts + 1 :=
  List.countP_cons_of_pos (decide_eq_true isComma)

theorem commas_cons_of_other {c : Tree} (noComma : c.kind ≠ .comma) (ts : List Tree) :
    commas (c :: ts) = commas ts :=
  List.countP_cons_of_neg (by simpa using noComma)

/-- **An element is found at a child**: the children before that one have the elements before, and
their commas give the position. -/
theorem elementsFrom_split {position : Nat} {filled : Bool} {ts : List Tree} {e : Nat × Tree}
    {earlier later : List (Nat × Tree)}
    (found : elementsFrom position filled ts = earlier ++ e :: later) :
    ∃ before after, ts = before ++ e.2 :: after ∧
      elementsFrom position filled before = earlier ∧ e.1 = position + commas before := by
  fun_induction elementsFrom position filled ts generalizing earlier with
  | case1 => simp at found
  | case2 position filled c rest isComma ih =>
    obtain ⟨before, after, rfl, same, count⟩ := ih found
    refine ⟨c :: before, after, rfl, ?_, ?_⟩
    · rw [elementsFrom_comma _ _ _ isComma, same]
    · rw [commas_cons_of_comma isComma]
      omega
  | case3 position filled c rest noComma isMark ih =>
    obtain ⟨before, after, rfl, same, count⟩ := ih found
    refine ⟨c :: before, after, rfl, ?_, ?_⟩
    · rw [elementsFrom_mark _ _ _ isMark, same]
    · rw [commas_cons_of_other noComma, count]
  | case4 position filled c rest noComma noMark free ih =>
    cases earlier with
    | nil =>
      obtain ⟨rfl, -⟩ := List.cons.inj found
      exact ⟨[], rest, rfl, rfl, rfl⟩
    | cons first earlier =>
      obtain ⟨rfl, foundLater⟩ := List.cons.inj found
      obtain ⟨before, after, rfl, same, count⟩ := ih foundLater
      refine ⟨c :: before, after, rfl, ?_, ?_⟩
      · rw [elementsFrom, if_neg noComma, if_neg noMark, if_pos free, same]
      · rw [commas_cons_of_other noComma, count]
  | case5 position filled c rest noComma noMark taken ih =>
    obtain ⟨before, after, rfl, same, count⟩ := ih found
    refine ⟨c :: before, after, rfl, ?_, ?_⟩
    · rw [elementsFrom, if_neg noComma, if_neg noMark, if_neg taken, same]
    · rw [commas_cons_of_other noComma, count]

/-! ## The law -/

/-- **Positions in array literals are exact.** An array literal has exactly the elements of its
slots, in order, each at the position of its slot, whatever comments it holds and whether or not a
comma follows the last slot. Of any node, positions grow from element to element, and each is the
number of commas among the children before the element: those children that have just the elements
before it. -/
theorem elements_at_positions (t : Tree) :
    (∀ slots, ArrayOf slots t.children → t.elements = placedFrom 0 slots) ∧
      t.elements.Pairwise (·.1 < ·.1) ∧
      ∀ earlier later position x, t.elements = earlier ++ (position, x) :: later →
        ∃ before after, t.children = before ++ x :: after ∧
          { t with children := before }.elements = earlier ∧ position = commas before := by
  refine ⟨fun slots isArray => ?_, (elementsFrom_pairwise 0 false t.children).1, ?_⟩
  · obtain ⟨opening, nodes, closing, opens, laidOut, closes, children⟩ := isArray
    rw [elements, ← elementsFrom_filter_comments, children, elementsFrom_mark _ _ _ (.inl opens),
      elementsFrom_slots laidOut closes]
  · intro earlier later position x found
    obtain ⟨before, after, children, same, count⟩ := elementsFrom_split found
    exact ⟨before, after, children, same, count.trans (Nat.zero_add _)⟩

/-- The law for `[a, /**/ , b, ]` and for `[a b , b`, in which two elements stand between commas and
no bracket closes. -/
theorem elements_at_positions_holes :
    let node (kind : Kind) (named : Bool) (start : Nat) : Tree :=
      { kind, named, start, stop := start + 1, fields := [], children := [] }
    let a := node .identifier true 1
    let b := node .identifier true 10
    let opening := node .openBracket false 0
    let array (children : List Tree) : Tree := { node .array true 0 with children }
    let t := array [opening, a, node .comma false 2, node .comment true 4, node .comma false 9, b,
      node .comma false 11, node .closeBracket false 13]
    let u := array [opening, a, b, node .comma false 11, b]
    ArrayOf [some a, none, some b] t.children ∧ t.elements = [(0, a), (2, b)] ∧
      u.elements = [(0, a), (1, b)] ∧
      ∃ before after, u.children = before ++ b :: after ∧
        { u with children := before }.elements = [(0, a)] ∧ commas before = 1 := by
  intro node a b opening array t u
  have element {x : Tree} (fills : x.FillsSlot) : ∀ y ∈ some x, y.FillsSlot := by
    rintro y ⟨⟩
    exact fills
  have slots : Slots [some a, none, some b]
      [a, node .comma false 2, node .comma false 9, b, node .comma false 11] :=
    .next (element (by decide)) rfl (.next (by simp) rfl (.next (element (by decide)) rfl .nil))
  have isArray : ArrayOf [some a, none, some b] t.children :=
    ⟨opening, _, node .closeBracket false 13, rfl, slots, rfl, rfl⟩
  obtain ⟨placed, -, -⟩ := elements_at_positions t
  obtain ⟨-, -, split⟩ := elements_at_positions u
  obtain ⟨before, after, children, same, count⟩ := split [(0, a)] [] 1 b rfl
  exact ⟨isArray, placed _ isArray, rfl, before, after, children, same, count.symm⟩

end Tree

end JsxOrigin
