import JsxOrigin.Proofs.Text.Pairs

/-!
# Well-formed units

16-bit units are well formed if they are the units of scalar values (`Text.WellFormedUnits`), so
that no half of a surrogate pair stands alone. Joining the pairs of a text keeps its units
(`Text.units_joinPairs`) and depends on nothing else (`Text.joinPairs_of_units`), so it leaves a
surrogate exactly if the units are not well formed (**the law**, `Text.hasSurrogate_joinPairs`).
-/

namespace JsxOrigin

theorem CodePoint.units_ofPair (h l : Fin 0x400) :
    (ofPair h l).units = [0xD800 + h.val, 0xDC00 + l.val] := by
  have value : (ofPair h l).val = 0x10000 + h.val * 0x400 + l.val := rfl
  have large : ¬ (ofPair h l).val < 0x10000 := by omega
  have leading : ((ofPair h l).val - 0x10000) / 0x400 = h.val := by omega
  have trailing : ((ofPair h l).val - 0x10000) % 0x400 = l.val := by omega
  rw [units, if_neg large, leading, trailing]

namespace Text

/-- **Whether 16-bit units are well formed**: they are the units of scalar values. -/
def WellFormedUnits (us : List Nat) : Prop := ∃ cs : List Char, us = units (cs.map .scalar)

variable {t t' : Text}

@[simp] theorem units_cons (c : CodePoint) (t : Text) : units (c :: t) = c.units ++ units t :=
  List.flatMap_cons

@[simp] theorem units_append (t t' : Text) : units (t ++ t') = units t ++ units t' :=
  List.flatMap_append

/-- A text without surrogates is one of scalar values. -/
theorem eq_map_scalar (none : t.hasSurrogate = false) : ∃ cs : List Char, t = cs.map .scalar := by
  induction t with
  | nil => exact ⟨[], rfl⟩
  | cons c t ih =>
    simp only [hasSurrogate, List.any_cons, Bool.or_eq_false_iff] at none
    obtain ⟨cs, rfl⟩ := ih none.2
    cases c with
    | scalar c => exact ⟨c :: cs, rfl⟩
    | high h => cases none.1
    | low l => cases none.1

theorem hasSurrogate_map_scalar (cs : List Char) : hasSurrogate (cs.map .scalar) = false := by
  simp [hasSurrogate]

theorem joinPairs_map_scalar (cs : List Char) :
    joinPairs (cs.map .scalar) = cs.map .scalar := by
  induction cs with
  | nil => rfl
  | cons c cs ih => rw [List.map_cons, joinPairs_scalar, ih]

/-- Joining pairs keeps the units. -/
theorem units_joinPairs (t : Text) : units (joinPairs t) = units t := by
  fun_induction joinPairs t with
  | case1 h l rest ih =>
    have high : (CodePoint.high h).units = [0xD800 + h.val] :=
      if_pos (CodePoint.val_lt_of_isSurrogate rfl)
    have low : (CodePoint.low l).units = [0xDC00 + l.val] :=
      if_pos (CodePoint.val_lt_of_isSurrogate rfl)
    rw [units_cons, units_cons, units_cons, CodePoint.units_ofPair, high, low, ih]
    rfl
  | case2 c rest _ ih => rw [units_cons, units_cons, ih]
  | case3 => rfl

/-- The halves of a text are read off its units. -/
theorem halves_eq_filterMap (t : Text) : halves t = (units t).filterMap CodePoint.ofNat? := by
  rw [halves, units, List.filterMap_flatMap]
  rfl

/-- What joining pairs gives depends on the units alone. -/
theorem joinPairs_of_units (same : units t = units t') : joinPairs t = joinPairs t' := by
  rw [← joinPairs_halves t, ← joinPairs_halves t', halves_eq_filterMap, halves_eq_filterMap, same]

/-- **Joining pairs leaves a surrogate** exactly if the units are not well formed. -/
theorem hasSurrogate_joinPairs (t : Text) :
    (joinPairs t).hasSurrogate = true ↔ ¬ WellFormedUnits (units t) := by
  constructor
  · rintro surrogate ⟨cs, same⟩
    rw [joinPairs_of_units same, joinPairs_map_scalar, hasSurrogate_map_scalar] at surrogate
    cases surrogate
  · intro illFormed
    by_cases surrogate : (joinPairs t).hasSurrogate = true
    · exact surrogate
    · obtain ⟨cs, scalars⟩ := eq_map_scalar (Bool.eq_false_iff.mpr surrogate)
      exact absurd ⟨cs, by rw [← scalars, units_joinPairs]⟩ illFormed

/-- A text without surrogates is not changed by joining pairs. -/
theorem joinPairs_of_no_surrogate (none : t.hasSurrogate = false) : joinPairs t = t := by
  obtain ⟨cs, rfl⟩ := eq_map_scalar none
  exact joinPairs_map_scalar cs

/-- Joining the pairs of a text where that leaves no surrogate keeps the units, and a surrogate is
left exactly if they are not well formed. -/
theorem joined?_getD (t : Text) :
    units ((joined? t).getD t) = units t ∧
      (((joined? t).getD t).hasSurrogate = true ↔ ¬ WellFormedUnits (units t)) := by
  rw [← hasSurrogate_joinPairs, joined?]
  by_cases surrogate : (joinPairs t).hasSurrogate = true
  · rw [if_pos surrogate, Option.getD_none]
    refine ⟨rfl, iff_of_true ?_ surrogate⟩
    by_cases inText : t.hasSurrogate = true
    · exact inText
    · rwa [joinPairs_of_no_surrogate (Bool.eq_false_iff.mpr inText)] at surrogate
  · rw [if_neg surrogate, Option.getD_some]
    exact ⟨units_joinPairs t, Iff.rfl⟩

end Text

end JsxOrigin
