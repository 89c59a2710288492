import JsxOrigin.Number.Binary64
import Mathlib.Algebra.Ring.Nat

/-!
# Natural numbers in double precision

A natural number below 2^53 is a double precision number, so that a quotient or a decimal number
which is equal to it is rounded to nothing else.

**The law** (`Binary64.toInt?_ofDecimal`): a decimal number that is equal to a natural number below
2^53 is read as that number, whatever zeros it is written with. Its binary form is given in full by
`Binary64.ofRatio_natural`.
-/

namespace JsxOrigin

namespace Binary64

/-- A quotient without remainder is not rounded. -/
theorem divNearest_mul (q : Nat) {d : Nat} (pos : 0 < d) : divNearest (q * d) d = q := by
  rw [divNearest, Nat.mul_mod_left, Nat.mul_div_cancel _ pos]
  exact if_pos (.inl pos)

/-- The logarithm of a product is the sum of the logarithms, or one more. -/
theorem log2_mul {n d : Nat} (posN : n ≠ 0) (posD : d ≠ 0) :
    (n * d).log2 = n.log2 + d.log2 ∨ (n * d).log2 = n.log2 + d.log2 + 1 := by
  have nonzero : n * d ≠ 0 := Nat.mul_ne_zero posN posD
  have atLeast : n.log2 + d.log2 ≤ (n * d).log2 := by
    rw [Nat.le_log2 nonzero, Nat.pow_add]
    exact Nat.mul_le_mul (Nat.log2_self_le posN) (Nat.log2_self_le posD)
  have below : (n * d).log2 < (n.log2 + 1) + (d.log2 + 1) := by
    rw [Nat.log2_lt nonzero, Nat.pow_add]
    exact Nat.mul_lt_mul_of_lt_of_lt Nat.lt_log2_self Nat.lt_log2_self
  omega

/-- The logarithm of a quotient that is a natural number. -/
theorem quotientLog2_mul {n d : Nat} (posN : n ≠ 0) (posD : d ≠ 0) :
    quotientLog2 (n * d) d = n.log2 := by
  obtain ⟨k, size, exact⟩ : ∃ k : Nat, (((n * d).log2 : Int) - d.log2) = k ∧
      (k = n.log2 ∨ k = n.log2 + 1) := by
    rcases log2_mul posN posD with same | more
    · exact ⟨n.log2, by omega, .inl rfl⟩
    · exact ⟨n.log2 + 1, by omega, .inr rfl⟩
  have fits : d * Nat.pow 2 k ≤ n * d * Nat.pow 2 0 ↔ k ≤ n.log2 := by
    rw [Nat.le_log2 posN, Nat.mul_comm n d]
    show d * 2 ^ k ≤ d * n * 1 ↔ _
    rw [Nat.mul_one]
    exact Nat.mul_le_mul_left_iff (Nat.pos_of_ne_zero posD)
  have unfolded : quotientLog2 (n * d) d = if k ≤ n.log2 then (k : Int) else (k : Int) - 1 := by
    simp only [quotientLog2, size, Int.toNat_natCast, Int.toNat_neg_natCast, fits]
  rw [unfolded]
  rcases exact with rfl | rfl
  · exact if_pos (Nat.le_refl _)
  · rw [if_neg (by omega)]
    omega

/-- **A natural number below 2^53 in binary form**: its mantissa has 53 digits, so the exponent is
not positive and nothing is rounded. -/
theorem ofRatio_natural {n d : Nat} (posN : n ≠ 0) (small : n < 2 ^ 53) (posD : d ≠ 0)
    (negative : Bool) :
    ofRatio negative (n * d) d = .finite negative (n * 2 ^ (52 - n.log2)) (n.log2 - 52) := by
  have size : n.log2 < 53 := (Nat.log2_lt posN).mpr small
  have exponent : max leastExponent (quotientLog2 (n * d) d - 52) = (n.log2 : Int) - 52 := by
    rw [quotientLog2_mul posN posD, leastExponent]
    omega
  have up : ((n.log2 : Int) - 52).toNat = 0 := by omega
  have down : (-((n.log2 : Int) - 52)).toNat = 52 - n.log2 := by omega
  have mantissa : divNearest (n * d * Nat.pow 2 (52 - n.log2)) (d * Nat.pow 2 0) =
      n * 2 ^ (52 - n.log2) := by
    have product : n * d * Nat.pow 2 (52 - n.log2) = n * 2 ^ (52 - n.log2) * d :=
      Nat.mul_right_comm _ _ _
    have divisor : d * Nat.pow 2 0 = d := Nat.mul_one d
    rw [product, divisor, divNearest_mul _ (Nat.pos_of_ne_zero posD)]
  have bound : n * 2 ^ (52 - n.log2) < 2 ^ 53 := by
    calc n * 2 ^ (52 - n.log2) < 2 ^ (n.log2 + 1) * 2 ^ (52 - n.log2) :=
          Nat.mul_lt_mul_of_pos_right Nat.lt_log2_self (Nat.two_pow_pos _)
      _ = 2 ^ 53 := by rw [← Nat.pow_add]; congr 1; omega
  have inRange : ¬ greatestExponent < (n.log2 : Int) - 52 := by
    rw [greatestExponent]
    omega
  have unrounded : ¬ n * 2 ^ (52 - n.log2) = Nat.pow 2 53 := Nat.ne_of_lt bound
  rw [ofRatio, if_neg (Nat.mul_ne_zero posN posD)]
  simp only [exponent, up, down, mantissa, if_neg unrounded, if_neg inRange]

theorem toInt?_zero (exponent : Int) : (finite false 0 exponent).toInt? = some 0 := by
  simp [toInt?, ratio]

/-- A natural number whose mantissa is shifted up keeps its value. -/
theorem toInt?_shifted (n : Nat) {exponent : Int} (notUp : exponent.toNat = 0) :
    (finite false (n * 2 ^ (-exponent).toNat) exponent).toInt? = some (n : Int) := by
  have product : n * 2 ^ (-exponent).toNat * Nat.pow 2 0 = n * Nat.pow 2 (-exponent).toNat :=
    Nat.mul_one _
  have quotient : n * Nat.pow 2 (-exponent).toNat / Nat.pow 2 (-exponent).toNat = n :=
    Nat.mul_div_cancel n (Nat.two_pow_pos _)
  simp only [toInt?, ratio, notUp, product, quotient, Nat.mul_mod_left, if_true, Bool.false_eq_true,
    if_false]

/-- A natural number below 2^53 keeps its value. -/
theorem toInt?_ofRatio {n d : Nat} (posN : n ≠ 0) (small : n < 2 ^ 53) (posD : d ≠ 0) :
    (ofRatio false (n * d) d).toInt? = some (n : Int) := by
  have size : n.log2 < 53 := (Nat.log2_lt posN).mpr small
  have shift : 52 - n.log2 = (-((n.log2 : Int) - 52)).toNat := by omega
  rw [ofRatio_natural posN small posD, shift]
  exact toInt?_shifted n (by omega)

/-- How long a number below 2^53 is with zeros after it. -/
theorem length_toDigits_zeros {n : Nat} (pos : n ≠ 0) (small : n < 2 ^ 53) (zeros : Nat) :
    zeros ≤ (Nat.toDigits 10 (n * 10 ^ zeros)).length ∧
      (Nat.toDigits 10 (n * 10 ^ zeros)).length ≤ zeros + 16 := by
  have powerPos : 0 < 10 ^ zeros := Nat.pow_pos (by decide)
  constructor
  · refine Nat.le_of_not_lt fun shorter => ?_
    have short := (Nat.length_toDigits_le_iff (by decide) (by omega)).mp (Nat.le_of_lt shorter)
    have atLeast : 10 ^ zeros ≤ n * 10 ^ zeros := Nat.le_mul_of_pos_left _ (by omega)
    omega
  · rw [Nat.length_toDigits_le_iff (by decide) (by omega), Nat.pow_add, Nat.mul_comm]
    exact Nat.mul_lt_mul_of_pos_left (by omega) powerPos

/-- **A decimal number that is a natural number below 2^53** is read as that number, whatever zeros
follow its digits. -/
theorem toInt?_ofDecimal {n : Nat} (small : n < 2 ^ 53) (zeros : Nat) :
    (ofDecimal false (n * 10 ^ zeros) (-(zeros : Int))).toInt? = some (n : Int) := by
  by_cases zero : n = 0
  · subst zero
    rw [Nat.zero_mul, ofDecimal, if_pos (.inl rfl)]
    exact toInt?_zero leastExponent
  · obtain ⟨atLeast, atMost⟩ := length_toDigits_zeros zero small zeros
    have powerPos : 10 ^ zeros ≠ 0 := Nat.ne_of_gt (Nat.pow_pos (by decide))
    have product : n * 10 ^ zeros ≠ 0 := Nat.mul_ne_zero zero powerPos
    have notTiny : ¬ (n * 10 ^ zeros = 0 ∨
        ((Nat.toDigits 10 (n * 10 ^ zeros)).length : Int) + -(zeros : Int) < -400) := by
      omega
    have notHuge : ¬ 400 <
        ((Nat.toDigits 10 (n * 10 ^ zeros)).length : Int) + -(zeros : Int) := by
      omega
    have numerator : n * 10 ^ zeros * Nat.pow 10 0 = n * 10 ^ zeros := Nat.mul_one _
    simp only [ofDecimal, if_neg notTiny, if_neg notHuge, Int.toNat_neg_natCast, Int.neg_neg,
      Int.toNat_natCast, numerator]
    exact toInt?_ofRatio zero small powerPos

end Binary64

end JsxOrigin
