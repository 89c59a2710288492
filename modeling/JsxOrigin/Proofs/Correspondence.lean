import Mathlib.Data.List.Forall2

/-!
# Corresponding lists and results

Two computations run over data that corresponds member by member: a list against a list, by
`List.Forall₂`, and a result that may be missing against another one, by `Option.Rel`. What tests
find and keep on the one side corresponds to what they find and keep on the other, and what is
computed from it is the same if it is the same for corresponding values.
-/

namespace JsxOrigin

namespace Correspondence

variable {α β γ δ : Type} {R : α → β → Prop} {p : α → Bool} {q : β → Bool}

/-- Tests that agree on corresponding members find corresponding ones. -/
theorem forall₂_find? {xs : List α} {ys : List β} (related : List.Forall₂ R xs ys)
    (same : ∀ a b, R a b → p a = q b) :
    Option.Rel (fun a b => R a b ∧ p a = true) (xs.find? p) (ys.find? q) := by
  induction related with
  | nil => exact .none
  | @cons a b xs ys head _ ih =>
    rw [List.find?_cons, List.find?_cons, ← same a b head]
    cases found : p a with
    | true => exact .some ⟨head, found⟩
    | false => exact ih

/-- Tests that agree on corresponding members keep corresponding ones. -/
theorem forall₂_filter {xs : List α} {ys : List β} (related : List.Forall₂ R xs ys)
    (same : ∀ a b, R a b → p a = q b) :
    List.Forall₂ (fun a b => R a b ∧ p a = true) (xs.filter p) (ys.filter q) := by
  induction related with
  | nil => exact .nil
  | @cons a b xs ys head _ ih =>
    rw [List.filter_cons, List.filter_cons, ← same a b head]
    cases kept : p a with
    | true => exact .cons ⟨head, kept⟩ ih
    | false => exact ih

theorem forall₂_getLast? {xs : List α} {ys : List β} (related : List.Forall₂ R xs ys) :
    Option.Rel R xs.getLast? ys.getLast? := by
  have backwards := List.rel_reverse related
  rw [← List.head?_reverse, ← List.head?_reverse]
  generalize xs.reverse = xs', ys.reverse = ys' at backwards
  cases backwards with
  | nil => exact .none
  | cons h _ => exact .some h

theorem rel_imp {S : α → β → Prop} {x : Option α} {y : Option β} (related : Option.Rel R x y)
    (wider : ∀ a b, R a b → S a b) : Option.Rel S x y := by
  cases related with
  | none => exact .none
  | some h => exact .some (wider _ _ h)

theorem rel_map {S : γ → δ → Prop} {x : Option α} {y : Option β} (related : Option.Rel R x y)
    {f : α → γ} {g : β → δ} (kept : ∀ a b, R a b → S (f a) (g b)) :
    Option.Rel S (x.map f) (y.map g) := by
  cases related with
  | none => exact .none
  | some h => exact .some (kept _ _ h)

theorem rel_getD {x : Option α} {y : Option β} (related : Option.Rel R x y) {a : α} {b : β}
    (default : R a b) : R (x.getD a) (y.getD b) := by
  cases related with
  | none => exact default
  | some h => exact h

/-- Corresponding results, with where the first one comes from. -/
theorem rel_found {x : Option α} {y : Option β} (related : Option.Rel R x y) :
    Option.Rel (fun a b => R a b ∧ x = some a) x y := by
  cases related with
  | none => exact .none
  | some h => exact .some ⟨h, rfl⟩

theorem map_eq {x : Option α} {y : Option β} (related : Option.Rel R x y) {f : α → γ} {g : β → γ}
    (same : ∀ a b, R a b → g b = f a) : y.map g = x.map f := by
  cases related with
  | none => rfl
  | some h => exact congrArg some (same _ _ h)

theorem bind_eq {x : Option α} {y : Option β} (related : Option.Rel R x y) {f : α → Option γ}
    {g : β → Option γ} (same : ∀ a b, R a b → g b = f a) : y.bind g = x.bind f := by
  cases related with
  | none => rfl
  | some h => exact same _ _ h

theorem forall₂_toList {x : Option α} {y : Option β} (related : Option.Rel R x y) :
    List.Forall₂ R x.toList y.toList := by
  cases related with
  | none => exact .nil
  | some h => exact .cons h .nil

/-- A condition that holds on both sides or on neither does not make a difference. -/
theorem guard_bind_eq {holds : Prop} [Decidable holds] {f g : Unit → Option γ}
    (same : holds → g () = f ()) :
    (guard holds : Option Unit).bind g = (guard holds : Option Unit).bind f := by
  unfold guard
  split
  · rename_i true
    exact same true
  · rfl

end Correspondence

end JsxOrigin
