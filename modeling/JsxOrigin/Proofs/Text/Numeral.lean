import JsxOrigin.Text.Digit
import Mathlib.Data.List.Forall2
import Mathlib.Data.Nat.Digits.Defs
import Mathlib.Tactic.Ring

/-!
# Numerals

Digits of a base spell a number by their values, the most significant one first (`Text.SpellsIn`).
A letter is a digit in either case, and zeros in front change nothing.

**The law** (`Text.numeral_of_spellsIn`): the numeral of digits is the number that they spell, in
every base up to sixteen. The decimal form of a number is read back (`Text.numeral_ofNat`), and
zeros after a numeral multiply it by powers of the base (`Text.numeral_append_zeros`).
-/

namespace JsxOrigin

/-! ## Digits -/

namespace CodePoint

/-- A digit of a base, in either case, with its value. -/
def IsDigitOf (base : Nat) (c : CodePoint) (d : Nat) : Prop :=
  d < base ∧ (c = .scalar d.digitChar ∨ c = .scalar d.digitChar.toUpper)

theorem digit?_of_isDigitOf {base : Nat} (atMost : base ≤ 16) {c : CodePoint} {d : Nat}
    (isDigit : IsDigitOf base c d) : c.digit? base = some d := by
  have each : ∀ d < 16, (scalar d.digitChar).digitValue? = some d ∧
      (scalar d.digitChar.toUpper).digitValue? = some d := by decide
  obtain ⟨small, written⟩ := isDigit
  have value : c.digitValue? = some d := by
    rcases written with rfl | rfl
    · exact (each d (by omega)).1
    · exact (each d (by omega)).2
  rw [digit?, value, Option.filter_some, if_pos (decide_eq_true small)]

theorem range_of_isDigit {c : Char} (isDigit : c.isDigit = true) : '0' ≤ c ∧ c ≤ '9' := by
  rw [Char.isDigit, Bool.and_eq_true, decide_eq_true_eq, decide_eq_true_eq] at isDigit
  exact isDigit

theorem digit?_of_isDigit {c : Char} (isDigit : c.isDigit = true) :
    (CodePoint.scalar c).digit? 10 = some (c.toNat - '0'.toNat) := by
  have range := range_of_isDigit isDigit
  have small : c.toNat - '0'.toNat < 10 := by
    have above : c.toNat ≤ '9'.toNat := range.2
    have nine : '9'.toNat = 57 := rfl
    have zero : '0'.toNat = 48 := rfl
    omega
  rw [digit?, digitValue?, if_pos range, Option.filter_some, if_pos (decide_eq_true small)]

/-- A digit is a digit or a letter of ASCII. -/
theorem val_of_isDigit {base : Nat} {c : CodePoint} (isDigit : c.isDigit base = true) :
    0x30 ≤ c.val ∧ c.val < 0x80 := by
  have valued : c.digitValue?.isSome = true := Option.isSome_of_isSome_filter _ _ isDigit
  cases c with
  | high | low => cases valued
  | scalar c =>
    have bounds {first last : Char} (range : first ≤ c ∧ c ≤ last) (above : 0x30 ≤ first.toNat)
        (below : last.toNat < 0x80) : 0x30 ≤ (scalar c).val ∧ (scalar c).val < 0x80 :=
      ⟨Nat.le_trans above range.1, Nat.lt_of_le_of_lt range.2 below⟩
    rw [digitValue?] at valued
    split at valued
    · rename_i range
      exact bounds range (by decide) (by decide)
    · split at valued
      · rename_i range
        exact bounds range (by decide) (by decide)
      · split at valued
        · rename_i range
          exact bounds range (by decide) (by decide)
        · cases valued

end CodePoint

namespace Text

/-- Digits of a base spell a number, the most significant one first. -/
def SpellsIn (base : Nat) (digits : Text) (n : Nat) : Prop :=
  ∃ ds : List Nat, List.Forall₂ (CodePoint.IsDigitOf base) digits ds ∧
    Nat.ofDigits base ds.reverse = n

section SpellsIn

variable {base : Nat} (atMost : base ≤ 16) {digits : Text} {n : Nat}
include atMost

theorem isDigit_of_spellsIn (spells : SpellsIn base digits n) :
    ∀ c ∈ digits, c.isDigit base = true := by
  obtain ⟨ds, each, -⟩ := spells
  induction each with
  | nil => simp
  | cons isDigit _ ih =>
    refine List.forall_mem_cons.mpr ⟨?_, ih⟩
    rw [CodePoint.isDigit, CodePoint.digit?_of_isDigitOf atMost isDigit, Option.isSome_some]

/-- **The numeral of digits** is the number that they spell. -/
theorem numeral_of_spellsIn (spells : SpellsIn base digits n) : numeral base digits = n := by
  obtain ⟨ds, each, rfl⟩ := spells
  -- The number read so far is any, for the induction.
  have folded : ∀ start, digits.foldl (fun n c => n * base + (c.digit? base).getD 0) start =
      start * base ^ ds.length + Nat.ofDigits base ds.reverse := by
    induction each with
    | nil => simp
    | cons isDigit _ ih =>
      intro start
      rw [List.foldl_cons, ih, CodePoint.digit?_of_isDigitOf atMost isDigit, Option.getD_some,
        List.reverse_cons, Nat.ofDigits_append, Nat.ofDigits_singleton, List.length_reverse,
        List.length_cons, pow_succ]
      ring
  rw [numeral, folded 0, Nat.zero_mul, Nat.zero_add]

end SpellsIn

/-- Digits spell a number below the power of the base that their count gives. -/
theorem lt_of_spellsIn {base : Nat} (atLeast : 1 < base) {digits : Text} {n : Nat}
    (spells : SpellsIn base digits n) : n < base ^ digits.length := by
  obtain ⟨ds, each, rfl⟩ := spells
  have small : ∀ d ∈ ds, d < base := by
    induction each with
    | nil => simp
    | cons isDigit _ ih => exact List.forall_mem_cons.mpr ⟨isDigit.1, ih⟩
  rw [each.length_eq, ← List.length_reverse]
  exact Nat.ofDigits_lt_base_pow_length atLeast fun d mem => small d (List.mem_reverse.mp mem)

/-- Zeros after a numeral multiply it by powers of the base. -/
theorem numeral_append_zeros (base : Nat) (digits : Text) (zeros : Nat) :
    numeral base (digits ++ List.replicate zeros (.scalar '0')) =
      numeral base digits * base ^ zeros := by
  have zero : ((CodePoint.scalar '0').digit? base).getD 0 = 0 := by
    have value : (CodePoint.scalar '0').digitValue? = some 0 := rfl
    rw [CodePoint.digit?, value, Option.filter_some]
    split <;> rfl
  induction zeros with
  | zero => simp
  | succ zeros ih =>
    rw [List.replicate_succ', ← List.append_assoc, numeral, List.foldl_append, ← numeral, ih,
      List.foldl_cons, List.foldl_nil, zero, Nat.add_zero, Nat.pow_succ, Nat.mul_assoc]

/-! ## Decimal forms -/

theorem numeral_map_scalar {cs : List Char} (digits : ∀ c ∈ cs, c.isDigit = true) :
    numeral 10 (cs.map .scalar) = Nat.ofDigitChars 10 cs 0 := by
  -- The number read so far is any, for the induction.
  suffices ∀ n, (cs.map .scalar).foldl (fun n c => n * 10 + (CodePoint.digit? 10 c).getD 0) n =
      Nat.ofDigitChars 10 cs n from this 0
  induction cs with
  | nil => simp
  | cons c cs ih =>
    intro n
    rw [List.map_cons, List.foldl_cons, ih fun d mem => digits d (List.mem_cons_of_mem _ mem),
      Nat.ofDigitChars_cons, CodePoint.digit?_of_isDigit (digits c List.mem_cons_self),
      Nat.mul_comm n 10, Option.getD_some]

theorem isDigit_of_mem_toDigits {n : Nat} {c : Char} (mem : c ∈ Nat.toDigits 10 n) :
    c.isDigit = true :=
  Nat.isDigit_of_mem_toDigits (by decide) (by decide) mem

theorem numeral_ofNat (n : Nat) : numeral 10 (ofNat n) = n := by
  rw [ofNat, numeral_map_scalar fun c => isDigit_of_mem_toDigits,
    Nat.ofDigitChars_toDigits (by decide) (by decide)]

theorem val_of_mem_ofNat {n : Nat} {c : CodePoint} (mem : c ∈ ofNat n) :
    0x30 ≤ c.val ∧ c.val ≤ 0x39 := by
  obtain ⟨d, digit, rfl⟩ := List.mem_map.mp mem
  exact CodePoint.range_of_isDigit (isDigit_of_mem_toDigits digit)

theorem isDigit_of_mem_ofNat {n : Nat} {c : CodePoint} (mem : c ∈ ofNat n) :
    c.isDigit 10 = true := by
  obtain ⟨d, digit, rfl⟩ := List.mem_map.mp mem
  rw [CodePoint.isDigit, CodePoint.digit?_of_isDigit (isDigit_of_mem_toDigits digit),
    Option.isSome_some]

end Text

end JsxOrigin
