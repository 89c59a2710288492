import JsxOrigin.Proofs.Provenance.Truncation
import JsxOrigin.Proofs.Text.Order
import Mathlib.Data.List.Basic
import Mathlib.Tactic.Choose

/-!
# Candidates of a growing chain

A chain grows at its end, and so do the candidates that are derived from it. **The law**
(`Candidate.rank_append`): with more findings, the candidates so far stay where they are, and after
them come those of the new findings that were not there yet. No candidate is given twice, and each
is yielded by some finding (`Finding.Yields`). The tags of all findings are those of both parts, in
order. So a chain that refuses findings has the first of the candidates that a longer one has
(`Candidate.rank_prefix`).

Candidates are told apart by reason and target. Two facts about lists carry the law: what is left of
a list when repetitions go has none, and it makes no difference whether members or repetitions are
removed first (`filter_eraseDups`).
-/

namespace JsxOrigin

/-! ## Lists without repetitions -/

section EraseDups

variable {α : Type} [BEq α] [LawfulBEq α]

theorem nodup_eraseDups (xs : List α) : xs.eraseDups.Nodup := by
  cases xs with
  | nil => exact .nil
  | cons x xs =>
    have shorter := List.length_filter_le (fun y => !y == x) xs
    rw [List.eraseDups_cons, List.nodup_cons]
    refine ⟨?_, nodup_eraseDups _⟩
    rw [List.mem_eraseDups, List.mem_filter]
    simp
termination_by xs.length
decreasing_by exact Nat.lt_succ_of_le shorter

/-- Removing members and removing repetitions can change places. -/
theorem filter_eraseDups (p : α → Bool) (xs : List α) :
    (xs.filter p).eraseDups = xs.eraseDups.filter p := by
  cases xs with
  | nil => rfl
  | cons x xs =>
    have shorter := List.length_filter_le (fun y => !y == x) xs
    have rest := filter_eraseDups p (xs.filter fun y => !y == x)
    rw [List.eraseDups_cons]
    by_cases kept : p x = true
    · rw [List.filter_cons_of_pos kept, List.filter_cons_of_pos kept, List.eraseDups_cons, ← rest,
        List.filter_comm]
    · rw [List.filter_cons_of_neg kept, List.filter_cons_of_neg kept, ← rest, List.filter_comm]
      -- the copies of `x` that the right side removes are gone already
      congr 1
      symm
      rw [List.filter_eq_self]
      intro y mem
      rw [Bool.not_eq_true', beq_eq_false_iff_ne]
      rintro rfl
      exact kept (List.mem_filter.mp mem).2
termination_by xs.length
decreasing_by exact Nat.lt_succ_of_le shorter

end EraseDups

namespace Text

/-- A text comes before another one: it is smaller and not the same. -/
def Before (s t : Text) : Prop := le s t = true ∧ s ≠ t

/-- Texts in order, each of them once, are strictly increasing. -/
theorem sortedSet_pairwise (ts : List Text) : (sortedSet ts).Pairwise Before := by
  have sorted : (sortedSet ts).Pairwise fun s t => le s t = true :=
    @List.pairwise_mergeSort Text le (fun _ _ _ => le_trans) le_total ts.eraseDups
  have once : (sortedSet ts).Pairwise (· ≠ ·) :=
    (List.mergeSort_perm _ _).nodup_iff.mpr (nodup_eraseDups ts)
  exact sorted.and once

theorem mem_sortedSet {ts : List Text} {t : Text} : t ∈ sortedSet ts ↔ t ∈ ts := by
  rw [sortedSet, sort, List.mem_mergeSort, List.mem_eraseDups]

end Text

/-! ## What findings yield -/

namespace Finding

/-- **A finding yields a candidate**: the place that it points at, with the reason. A call yields
its call site, and the definition of what is called if that has a text. -/
inductive Yields {ι : Type} : Finding Text ι → Candidate Text → Prop where
  | literal (span value : Text) : Yields (.literal span value) ⟨span, .literal⟩
  | init (span : Text) : Yields (.init span) ⟨span, .initializer⟩
  | member (span : Text) : Yields (.member span) ⟨span, .member⟩
  | objectProp (key span : Text) : Yields (.objectProp key span) ⟨span, .structural⟩
  | arrayElem (index : ι) (span : Text) : Yields (.arrayElem index span) ⟨span, .structural⟩
  | callsite (callee site calleeSpan : Text) (definition : Option Text) :
      Yields (.call callee site calleeSpan definition) ⟨site, .callsite⟩
  | definition (callee site calleeSpan : Text) {target : Text} (present : target ≠ []) :
      Yields (.call callee site calleeSpan (some target)) ⟨target, .definition⟩
  | ctor (callee span : Text) : Yields (.ctor callee span) ⟨span, .constructor⟩
  | imported (module name span : Text) : Yields (.imported module name span) ⟨span, .imported⟩
  | env (key span : Text) : Yields (.env key span) ⟨span, .env⟩

theorem mem_ofOrigin_iff {o : Origin} {c : Candidate Text} :
    c ∈ Candidate.ofOrigin o ↔ o.Yields c := by
  constructor
  · intro mem
    cases o with
    | call callee site calleeSpan definition =>
      rcases List.mem_cons.mp mem with rfl | mem
      · exact .callsite callee site calleeSpan definition
      · obtain ⟨target, named, rfl⟩ := List.mem_map.mp mem
        obtain ⟨isTarget, present⟩ := List.mem_filter.mp named
        obtain rfl := Option.mem_toList.mp isTarget
        exact .definition callee site calleeSpan (by simpa using present)
    | ident | op | unknown | foreign => cases mem
    | _ =>
      obtain rfl := List.mem_singleton.mp mem
      constructor
  · intro yields
    cases yields with
    | definition callee site calleeSpan present =>
      refine List.mem_cons_of_mem _ (List.mem_map.mpr ⟨_, ?_, rfl⟩)
      exact List.mem_filter.mpr ⟨List.mem_singleton.mpr rfl, by simpa using present⟩
    | _ => exact List.mem_cons_self

theorem mem_tags_iff {τ ι : Type} {findings : List (Finding τ ι)} {tag : Text} :
    tag ∈ tags findings ↔ ∃ f ∈ findings, f.tag? = some tag := by
  rw [tags, Text.mem_sortedSet, List.mem_filterMap]

end Finding

/-! ## The law -/

namespace Candidate

theorem mem_rank_iff {origins : List Origin} {c : Candidate Text} :
    c ∈ rank origins ↔ ∃ o ∈ origins, o.Yields c := by
  simp only [rank, List.mem_eraseDups, List.mem_flatMap, Finding.mem_ofOrigin_iff]

/-- More findings add candidates at the end: those that were not there before. -/
theorem rank_concat (first later : List Origin) :
    rank (first ++ later) =
      rank first ++ (rank later).filter fun c => !(rank first).contains c := by
  have known (c : Candidate Text) :
      (first.flatMap ofOrigin).contains c = (rank first).contains c := by
    rw [Bool.eq_iff_iff, List.contains_iff_mem, List.contains_iff_mem, rank, List.mem_eraseDups]
  rw [rank, List.flatMap_append, List.eraseDups_append, List.removeAll, filter_eraseDups]
  simp only [List.elem_eq_contains, known]
  rfl

/-- The candidates of a beginning are a beginning of the candidates. -/
theorem rank_prefix {first all : List Origin} (beginning : first <+: all) :
    rank first <+: rank all := by
  obtain ⟨later, rfl⟩ := beginning
  rw [rank_concat]
  exact List.prefix_append _ _

end Candidate

/-- The findings of a chain with a smaller limit are the first of those of one with a larger limit,
if the same expressions are traced onto both. -/
theorem Source.answerAll_prefix (s : Source) (bs : Bindings Tree) (requests : List TraceRequest)
    {limit larger : Int} (le : limit ≤ larger) :
    (s.answerAll bs limit requests).findings <+: (s.answerAll bs larger requests).findings := by
  choose bound unreached using s.exists_unreached_limit bs
  -- both are cut from what the expressions yield on chains of their own
  have cut (limit : Int) := (s.foldl_answer_cut bs bound requests
    (fun r _ => unreached r (bound r) (Int.le_refl _)) { limit } [] List.take_nil.symm
    (fun truncated => by cases truncated)).1
  rw [answerAll, answerAll, cut, cut]
  exact List.take_prefix_take_left (Int.toNat_le_toNat le)

/-- **Candidates only grow at the end.** The candidates of some findings and later ones are the
candidates of the first, and then those of the later ones that are not among them, in order. None is
repeated, and they are what the findings yield. The tags are strictly increasing, and they are those
of the first and of the later findings. If expressions are traced onto a chain with a smaller limit,
the candidates are the first of those that a larger limit gives. -/
theorem Candidate.rank_append (first later : List Origin) :
    rank (first ++ later) =
        rank first ++ (rank later).filter (fun c => !(rank first).contains c) ∧
      (rank (first ++ later)).Nodup ∧
      (∀ c, c ∈ rank (first ++ later) ↔ ∃ o ∈ first ++ later, o.Yields c) ∧
      (Finding.tags (first ++ later)).Pairwise Text.Before ∧
      (∀ tag, tag ∈ Finding.tags (first ++ later) ↔
        tag ∈ Finding.tags first ∨ tag ∈ Finding.tags later) ∧
      (∀ tag, tag ∈ Finding.tags (first ++ later) ↔ ∃ o ∈ first ++ later, o.tag? = some tag) ∧
      ∀ (s : Source) (bs : Bindings Tree) (requests : List TraceRequest) (limit : Int) (more : Nat),
        rank (s.answerAll bs limit requests).findings <+:
          rank (s.answerAll bs (limit + more) requests).findings := by
  refine ⟨rank_concat first later, nodup_eraseDups _, fun c => mem_rank_iff,
    Text.sortedSet_pairwise _, fun tag => ?_, fun tag => Finding.mem_tags_iff, ?_⟩
  · simp only [Finding.mem_tags_iff, List.mem_append, or_and_right, exists_or]
  · intro s bs requests limit more
    exact rank_prefix (s.answerAll_prefix bs requests (by omega))

end JsxOrigin
