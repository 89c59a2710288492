import JsxOrigin.ModuleGraph.Basic
import JsxOrigin.Syntax.Literal

/-!
# The literal index

The string literals in the value of an exported variable, each with the path of keys and positions
that leads to it. Objects and arrays are entered; parentheses and type annotations around a value
are looked through.
-/

namespace JsxOrigin

/-! ## Values without wrapping -/

/-- Whether a node annotates a value with a type and leaves the value alone. -/
def Kind.isTypeWrapper (k : Kind) : Bool :=
  k == .asExpression || k == .satisfiesExpression || k == .nonNull

mutual

/-- A value without the parentheses and the type annotations around it. An annotation around nothing
has none; parentheses around nothing stay. -/
def Tree.bare? : Tree → Option Tree
  | ⟨kind, named, start, stop, fields, children⟩ =>
    let t : Tree := ⟨kind, named, start, stop, fields, children⟩
    if kind = .parenthesized then (Tree.bareExpression? children).getD (some t)
    else if kind.isTypeWrapper then (Tree.bareNamed? children).getD none
    else some t

/-- The first expression of a list of children without its wrapping. -/
def Tree.bareExpression? : List Tree → Option (Option Tree)
  | [] => none
  | c :: rest =>
    if c.named && c.kind != .comment then some (Tree.bare? c) else Tree.bareExpression? rest

/-- The first named child of a list without its wrapping. -/
def Tree.bareNamed? : List Tree → Option (Option Tree)
  | [] => none
  | c :: rest => if c.named then some (Tree.bare? c) else Tree.bareNamed? rest

end

mutual

/-- Taking the wrapping off makes no tree larger. -/
theorem Tree.size_bare?_le {t u : Tree} (h : t.bare? = some u) : u.size ≤ t.size := by
  match t with
  | ⟨kind, named, start, stop, fields, children⟩ =>
    rw [Tree.bare?] at h
    split at h
    · cases hc : Tree.bareExpression? children with
      | none => simp [hc] at h; simp [← h]
      | some v =>
        simp only [hc, Option.getD_some] at h
        have := Tree.size_bareExpression?_le (h ▸ hc)
        rw [Tree.size]
        omega
    · split at h
      · cases hc : Tree.bareNamed? children with
        | none => simp [hc] at h
        | some v =>
          simp only [hc, Option.getD_some] at h
          have := Tree.size_bareNamed?_le (h ▸ hc)
          rw [Tree.size]
          omega
      · simp at h
        simp [← h]

theorem Tree.size_bareExpression?_le {ts : List Tree} {u : Tree}
    (h : Tree.bareExpression? ts = some (some u)) : u.size ≤ Tree.sizeOfAll ts := by
  match ts with
  | [] => simp [Tree.bareExpression?] at h
  | c :: rest =>
    rw [Tree.bareExpression?] at h
    split at h
    · have := Tree.size_bare?_le (Option.some.inj h)
      rw [Tree.sizeOfAll]
      omega
    · have := Tree.size_bareExpression?_le h
      rw [Tree.sizeOfAll]
      omega

theorem Tree.size_bareNamed?_le {ts : List Tree} {u : Tree}
    (h : Tree.bareNamed? ts = some (some u)) : u.size ≤ Tree.sizeOfAll ts := by
  match ts with
  | [] => simp [Tree.bareNamed?] at h
  | c :: rest =>
    rw [Tree.bareNamed?] at h
    split at h
    · have := Tree.size_bare?_le (Option.some.inj h)
      rw [Tree.sizeOfAll]
      omega
    · have := Tree.size_bareNamed?_le h
      rw [Tree.sizeOfAll]
      omega

end

/-! ## Parts of a value -/

/-- A value with the path that leads to it. -/
abbrev PathValue := Text × Tree

/-- The path of a key below a path. -/
def keyPath (path key : Text) : Text := if path.isEmpty then key else path ++ "." ++ key

/-- The path of a position below a path. -/
def positionPath (path : Text) (position : Nat) : Text := path ++ "[" ++ Text.ofNat position ++ "]"

namespace Source

/-- The value of a property with a static key. -/
def propertyValue? (s : Source) (path : Text) (property : Tree) : Option PathValue :=
  if property.kind = .pair then do
    let key ← (property.field? .key).bind s.propertyKey?
    let value ← property.field? .value
    some (keyPath path key, value)
  else none

/-- The values inside an object or an array literal. Computed keys and spread elements are left
out. -/
def parts (s : Source) (path : Text) (t : Tree) : List PathValue :=
  match t.kind with
  | .object => t.namedChildren.filterMap (s.propertyValue? path)
  | .array =>
    (t.elements.filter (·.2.kind ≠ .spread)).map fun (position, element) =>
      (positionPath path position, element)
  | _ => []

/-- The size of a list of values. -/
def partsSize (vs : List PathValue) : Nat := Tree.sizeOfAll (vs.map Prod.snd)

theorem partsSize_cons (path : Text) (v : Tree) (vs : List PathValue) :
    partsSize ((path, v) :: vs) = v.size + partsSize vs := by
  rw [partsSize, List.map_cons, Tree.sizeOfAll, ← partsSize]

theorem partsSize_append (vs ws : List PathValue) :
    partsSize (vs ++ ws) = partsSize vs + partsSize ws := by
  rw [partsSize, List.map_append, Tree.sizeOfAll_append, ← partsSize, ← partsSize]

/-- The value of a property is smaller than the property. -/
theorem size_propertyValue?_le {s : Source} {path : Text} {t : Tree} {v : PathValue}
    (h : s.propertyValue? path t = some v) : v.2.size ≤ t.size := by
  unfold propertyValue? at h
  split at h
  · simp only [Option.bind_eq_bind, Option.bind_eq_some_iff] at h
    obtain ⟨key, _, value, hvalue, hv⟩ := h
    have := Tree.size_lt_of_mem (List.mem_of_find?_eq_some hvalue)
    cases hv
    exact Nat.le_of_lt this
  · cases h

theorem partsSize_filterMap_le (s : Source) (path : Text) (ts : List Tree) :
    partsSize (ts.filterMap (s.propertyValue? path)) ≤ Tree.sizeOfAll ts := by
  induction ts with
  | nil => exact Nat.le_refl _
  | cons t ts ih =>
    rw [List.filterMap_cons, Tree.sizeOfAll]
    cases h : s.propertyValue? path t with
    | none => exact Nat.le_trans ih (Nat.le_add_left _ _)
    | some v =>
      obtain ⟨inner, u⟩ := v
      rw [partsSize_cons]
      exact Nat.add_le_add (size_propertyValue?_le h) ih

theorem sizeOfAll_elementsFrom_le (position : Nat) (filled : Bool) (ts : List Tree) :
    Tree.sizeOfAll ((Tree.elementsFrom position filled ts).map Prod.snd) ≤ Tree.sizeOfAll ts := by
  fun_induction Tree.elementsFrom position filled ts <;>
    simp only [List.map_cons, List.map_nil, Tree.sizeOfAll] at * <;> omega

/-- The elements of an array literal that are not spread, with their paths. -/
theorem partsSize_elements_le (path : Text) (es : List (Nat × Tree)) :
    partsSize ((es.filter (·.2.kind ≠ .spread)).map fun (position, element) =>
      (positionPath path position, element)) ≤ Tree.sizeOfAll (es.map Prod.snd) := by
  rw [partsSize, List.map_map]
  induction es with
  | nil => exact Nat.le_refl _
  | cons e es ih =>
    rw [List.map_cons, Tree.sizeOfAll, List.filter_cons]
    split
    · rw [List.map_cons, Tree.sizeOfAll]
      exact Nat.add_le_add (Nat.le_refl _) ih
    · exact Nat.le_trans ih (Nat.le_add_left _ _)

/-- The values inside a value are smaller than it. -/
theorem partsSize_parts_lt (s : Source) (path : Text) (t : Tree) :
    partsSize (s.parts path t) < t.size := by
  rw [Tree.size_eq, parts]
  split
  · have h₁ := partsSize_filterMap_le s path t.namedChildren
    have h₂ := Tree.sizeOfAll_filter_le (·.named) t.children
    rw [← Tree.namedChildren] at h₂
    omega
  · have h₁ := partsSize_elements_le path t.elements
    have h₂ := sizeOfAll_elementsFrom_le 0 false t.children
    rw [← Tree.elements] at h₂
    omega
  · exact Nat.succ_pos _

/-! ## The index -/

/-- The rows of the values that wait: of these, the first one is looked at, and its parts come
before all others. -/
def literalRowsOf (s : Source) (exportName : Text) : List PathValue → List (LiteralRow Text)
  | [] => []
  | (path, v) :: waiting =>
    match _hb : v.bare? with
    | none => s.literalRowsOf exportName waiting
    | some t =>
      if t.kind = .string then
        ⟨exportName, path, s.stringValue t, s.span t⟩ :: s.literalRowsOf exportName waiting
      else s.literalRowsOf exportName (s.parts path t ++ waiting)
termination_by waiting => partsSize waiting
decreasing_by
  · have := Tree.size_eq v
    rw [partsSize_cons]
    omega
  · have := Tree.size_eq v
    rw [partsSize_cons]
    omega
  · have h₁ := partsSize_parts_lt s path t
    have h₂ := Tree.size_bare?_le _hb
    rw [partsSize_append, partsSize_cons]
    omega

/-- The rows of the string literals in the value of an exported variable. -/
def literalRows (s : Source) (exportName : Text) (value : Tree) : List (LiteralRow Text) :=
  s.literalRowsOf exportName [([], value)]

end Source

end JsxOrigin
