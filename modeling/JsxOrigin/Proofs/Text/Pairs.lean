import JsxOrigin.Text.Utf16

/-!
# Surrogate pairs

A scalar value beyond U+FFFF has two 16-bit units, and a reader that takes unit by unit sees the two
halves of a surrogate pair in its place (`CodePoint.halves`). Joining pairs undoes that: a text and
the text of its halves have the same joined form (**reading by units**, `Text.joinPairs_halves`),
and joining a second time changes nothing (**joined once**, `Text.joinPairs_joinPairs`).
-/

namespace JsxOrigin

namespace CodePoint

theorem toNat_lt_or (c : Char) : c.toNat < 0xD800 ∨ (0xDFFF < c.toNat ∧ c.toNat < 0x110000) :=
  c.valid

@[simp] theorem ofNat?_val (c : CodePoint) : ofNat? c.val = some c := by
  cases c with
  | scalar c =>
    have range := toNat_lt_or c
    have noHigh : ¬ (0xD800 ≤ c.toNat ∧ c.toNat < 0xDC00) := by omega
    have noLow : ¬ (0xDC00 ≤ c.toNat ∧ c.toNat < 0xE000) := by omega
    have valid : c.toNat.isValidChar := c.valid
    unfold ofNat?
    rw [val, dif_neg noHigh, dif_neg noLow, dif_pos valid]
    rfl
  | high h =>
    have inside : 0xD800 ≤ 0xD800 + h.val ∧ 0xD800 + h.val < 0xDC00 := by omega
    unfold ofNat?
    rw [val, dif_pos inside]
    simp
  | low l =>
    have noHigh : ¬ (0xD800 ≤ 0xDC00 + l.val ∧ 0xDC00 + l.val < 0xDC00) := by omega
    have inside : 0xDC00 ≤ 0xDC00 + l.val ∧ 0xDC00 + l.val < 0xE000 := by omega
    unfold ofNat?
    rw [val, dif_neg noHigh, dif_pos inside]
    simp

theorem ofNatAux_eq {c : Char} {n : Nat} {valid : n.isValidChar} (same : n = c.toNat) :
    Char.ofNatAux n valid = c := by
  subst same
  rfl

theorem ofPair_scalar (h l : Fin 0x400) : ∃ c, ofPair h l = scalar c := ⟨_, rfl⟩

/-- The code points that the units of a code point name one by one. -/
def halves (c : CodePoint) : Text := c.units.filterMap ofNat?

theorem halves_of_lt {c : CodePoint} (small : c.val < 0x10000) : c.halves = [c] := by
  simp [halves, units, small]

theorem ofNat?_high (h : Fin 0x400) : ofNat? (0xD800 + h.val) = some (.high h) :=
  ofNat?_val (.high h)

theorem ofNat?_low (l : Fin 0x400) : ofNat? (0xDC00 + l.val) = some (.low l) :=
  ofNat?_val (.low l)

theorem val_lt_of_isSurrogate {c : CodePoint} (surrogate : c.isSurrogate) : c.val < 0x10000 := by
  cases c with
  | scalar c => simp at surrogate
  | high h => simp only [val]; omega
  | low l => simp only [val]; omega

/-- The units of a scalar value beyond U+FFFF are a pair that stands for it. -/
theorem units_of_ge {c : CodePoint} (large : 0x10000 ≤ c.val) :
    ∃ h l : Fin 0x400, c.units = [0xD800 + h.val, 0xDC00 + l.val] ∧ ofPair h l = c := by
  have twoUnits : c.units =
      [0xD800 + (c.val - 0x10000) / 0x400, 0xDC00 + (c.val - 0x10000) % 0x400] := by
    rw [units, if_neg (Nat.not_lt.mpr large)]
  cases c with
  | high h => exact absurd (val_lt_of_isSurrogate rfl) (Nat.not_lt.mpr large)
  | low l => exact absurd (val_lt_of_isSurrogate rfl) (Nat.not_lt.mpr large)
  | scalar c =>
    have atLeast : 0x10000 ≤ c.toNat := large
    have range := toNat_lt_or c
    obtain ⟨h, leading⟩ : ∃ h : Fin 0x400, (c.toNat - 0x10000) / 0x400 = h.val :=
      ⟨⟨_, by omega⟩, rfl⟩
    obtain ⟨l, trailing⟩ : ∃ l : Fin 0x400, (c.toNat - 0x10000) % 0x400 = l.val :=
      ⟨⟨_, by omega⟩, rfl⟩
    refine ⟨h, l, ?_, ?_⟩
    · rw [twoUnits, val, leading, trailing]
    · have whole : 0x10000 + h.val * 0x400 + l.val = c.toNat := by omega
      rw [ofPair, scalar.injEq]
      exact ofNatAux_eq whole

theorem halves_of_ge {c : CodePoint} (large : 0x10000 ≤ c.val) :
    ∃ h l, c.halves = [.high h, .low l] ∧ ofPair h l = c := by
  obtain ⟨h, l, pair, stands⟩ := units_of_ge large
  refine ⟨h, l, ?_, stands⟩
  simp only [halves, pair, List.filterMap_cons, ofNat?_high, ofNat?_low, List.filterMap_nil]

/-- Each unit of a code point fits 16 bits and names a code point itself. -/
theorem ofNat?_of_mem_units {c : CodePoint} {u : Nat} (mem : u ∈ c.units) :
    u < 0x10000 ∧ ∃ p, ofNat? u = some p := by
  by_cases small : c.val < 0x10000
  · rw [units, if_pos small, List.mem_singleton] at mem
    subst mem
    exact ⟨small, c, ofNat?_val c⟩
  · obtain ⟨h, l, pair, -⟩ := units_of_ge (Nat.le_of_not_lt small)
    simp only [pair, List.mem_cons, List.not_mem_nil, or_false] at mem
    rcases mem with rfl | rfl
    · exact ⟨by omega, _, ofNat?_high h⟩
    · exact ⟨by omega, _, ofNat?_low l⟩

end CodePoint

namespace Text

theorem joinPairs_high_low (h l : Fin 0x400) (rest : Text) :
    joinPairs (.high h :: .low l :: rest) = .ofPair h l :: joinPairs rest := by
  rw [joinPairs]

theorem joinPairs_scalar (c : Char) (rest : Text) :
    joinPairs (.scalar c :: rest) = .scalar c :: joinPairs rest := by
  rw [joinPairs]
  simp

/-- Whether a text starts with the trailing half of a pair. -/
def startsLow : Text → Bool
  | .low _ :: _ => true
  | _ => false

theorem startsLow_eq_false {rest : Text} (none : ∀ l more, rest ≠ .low l :: more) :
    startsLow rest = false := by
  fun_cases startsLow rest with
  | case1 l more => exact absurd rfl (none l more)
  | case2 => rfl

theorem joinPairs_high {h : Fin 0x400} {rest : Text} (alone : startsLow rest = false) :
    joinPairs (.high h :: rest) = .high h :: joinPairs rest := by
  rw [joinPairs]
  rintro _ l _ - rfl
  simp [startsLow] at alone

theorem joinPairs_low (l : Fin 0x400) (rest : Text) :
    joinPairs (.low l :: rest) = .low l :: joinPairs rest := by
  rw [joinPairs]
  simp

theorem startsLow_joinPairs (t : Text) : startsLow (joinPairs t) = startsLow t := by
  fun_cases joinPairs t with
  | case1 h l rest => rfl
  | case2 c rest notPair => cases c <;> simp [startsLow]
  | case3 => rfl

/-- **Joined once.** -/
theorem joinPairs_joinPairs (t : Text) : joinPairs (joinPairs t) = joinPairs t := by
  fun_induction joinPairs t with
  | case1 h l rest ih =>
    obtain ⟨c, isScalar⟩ := CodePoint.ofPair_scalar h l
    rw [isScalar, joinPairs_scalar, ih]
  | case2 c rest notPair ih =>
    cases c with
    | scalar c => rw [joinPairs_scalar, ih]
    | low l => rw [joinPairs_low, ih]
    | high h =>
      have alone := startsLow_eq_false fun l more => notPair h l more rfl
      have stillAlone : startsLow (joinPairs rest) = false := by
        rw [startsLow_joinPairs, alone]
      rw [joinPairs_high stillAlone, ih]
  | case3 => rfl

/-- The halves of a text's code points. -/
def halves (t : Text) : Text := t.flatMap CodePoint.halves

theorem halves_cons (c : CodePoint) (t : Text) : halves (c :: t) = c.halves ++ halves t := by
  simp [halves]

theorem startsLow_halves (t : Text) : startsLow (halves t) = startsLow t := by
  cases t with
  | nil => rfl
  | cons c rest =>
    rw [halves_cons]
    by_cases small : c.val < 0x10000
    · rw [CodePoint.halves_of_lt small]
      cases c <;> rfl
    · obtain ⟨h, l, pair, rfl⟩ := CodePoint.halves_of_ge (Nat.le_of_not_lt small)
      rw [pair]
      rfl

/-- **Reading by units.** Joining the pairs of a text's halves is joining the pairs of the text. -/
theorem joinPairs_halves (t : Text) : joinPairs (halves t) = joinPairs t := by
  fun_induction joinPairs t with
  | case1 h l rest ih =>
    rw [halves_cons, halves_cons, CodePoint.halves_of_lt (CodePoint.val_lt_of_isSurrogate rfl),
      CodePoint.halves_of_lt (CodePoint.val_lt_of_isSurrogate rfl)]
    simp only [List.cons_append, List.nil_append, joinPairs_high_low, ih]
  | case2 c rest notPair ih =>
    rw [halves_cons]
    by_cases small : c.val < 0x10000
    · rw [CodePoint.halves_of_lt small, List.singleton_append]
      cases c with
      | scalar c => rw [joinPairs_scalar, ih]
      | low l => rw [joinPairs_low, ih]
      | high h =>
        have alone := startsLow_eq_false fun l more => notPair h l more rfl
        have stillAlone : startsLow (halves rest) = false := by
          rw [startsLow_halves, alone]
        rw [joinPairs_high stillAlone, ih]
    · obtain ⟨h, l, pair, rfl⟩ := CodePoint.halves_of_ge (Nat.le_of_not_lt small)
      rw [pair]
      simp only [List.cons_append, List.nil_append, joinPairs_high_low, ih]
  | case3 => rfl

end Text

end JsxOrigin
