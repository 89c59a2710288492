import JsxOrigin.Proofs.Text.Pairs

/-!
# The order of texts

Texts are compared by the numbers of their code points, and no two code points share a number. So
this is a linear order (`Text.le_trans`, `Text.le_total`, `Text.le_antisymm`), and sorting by it
leaves one order only: lists with the same members are sorted alike if the keys by which they are
sorted tell their members apart (`Text.mergeSort_eq_of_perm`).
-/

namespace JsxOrigin

theorem CodePoint.val_injective {a b : CodePoint} (same : a.val = b.val) : a = b := by
  have read := ofNat?_val a
  rw [same, ofNat?_val] at read
  exact (Option.some.inj read).symm

namespace Text

theorem le_cons_cons {a b : CodePoint} {s t : Text} :
    le (a :: s) (b :: t) = true ↔ a.val < b.val ∨ a.val = b.val ∧ le s t = true := by
  simp [le]

theorem le_trans {s t u : Text} (first : le s t = true) (second : le t u = true) :
    le s u = true := by
  induction s generalizing t u with
  | nil => rfl
  | cons a s ih =>
    cases t with
    | nil => cases first
    | cons b t =>
      cases u with
      | nil => cases second
      | cons c u =>
        rw [le_cons_cons] at first second ⊢
        rcases first with first | ⟨first, rest⟩ <;> rcases second with second | ⟨second, rest'⟩
        · exact .inl (by omega)
        · exact .inl (by omega)
        · exact .inl (by omega)
        · exact .inr ⟨first.trans second, ih rest rest'⟩

theorem le_total (s t : Text) : (le s t || le t s) = true := by
  induction s generalizing t with
  | nil => rfl
  | cons a s ih =>
    cases t with
    | nil => rfl
    | cons b t =>
      rw [Bool.or_eq_true, le_cons_cons, le_cons_cons]
      rcases Nat.lt_trichotomy a.val b.val with less | same | more
      · exact .inl (.inl less)
      · rcases Bool.or_eq_true_iff.mp (ih t) with before | after
        · exact .inl (.inr ⟨same, before⟩)
        · exact .inr (.inr ⟨same.symm, after⟩)
      · exact .inr (.inl more)

theorem le_antisymm {s t : Text} (before : le s t = true) (after : le t s = true) : s = t := by
  induction s generalizing t with
  | nil =>
    cases t with
    | nil => rfl
    | cons b t => cases after
  | cons a s ih =>
    cases t with
    | nil => cases before
    | cons b t =>
      rw [le_cons_cons] at before after
      obtain ⟨same, rest⟩ := before.resolve_left (by omega)
      obtain ⟨-, rest'⟩ := after.resolve_left (by omega)
      rw [CodePoint.val_injective same, ih rest rest']

/-- **Sorting forgets the order**: lists with the same members are sorted alike, if members with the
same key are the same. -/
theorem mergeSort_eq_of_perm {α : Type} {key : α → Text} {xs ys : List α} (perm : xs.Perm ys)
    (distinct : ∀ a ∈ xs, ∀ b ∈ xs, key a = key b → a = b) :
    (xs.mergeSort fun a b => le (key a) (key b)) = ys.mergeSort fun a b => le (key a) (key b) := by
  have sorted (zs : List α) := @List.pairwise_mergeSort α (fun a b => le (key a) (key b))
    (fun _ _ _ => le_trans) (fun a b => le_total (key a) (key b)) zs
  refine List.Perm.eq_of_pairwise ?_ (sorted xs) (sorted ys) ?_
  · intro a b memA memB before after
    refine distinct a (List.mem_mergeSort.mp memA) b ?_ (le_antisymm before after)
    exact perm.mem_iff.mpr (List.mem_mergeSort.mp memB)
  · exact (List.mergeSort_perm xs _).trans (perm.trans (List.mergeSort_perm ys _).symm)

end Text

end JsxOrigin
