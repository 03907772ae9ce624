import Mathlib.Algebra.Group.Nat.Defs
import PocketScript.Value

/-!
# Small whole numbers

The whole numbers below 2^53 are exact, so a positive whole number that is small comes back from its
magnitude as it was.
-/

namespace PocketScript

namespace Number

variable {n : Number} {whole : Nat}

/-- A number that is not negative is its magnitude. -/
theorem bits_eq_magnitude (positive : n.isNegative = false) : n.bits.toNat = n.magnitude := by
  unfold isNegative at positive
  unfold magnitude
  have below : ¬ n.bits.toNat ≥ Nat.pow 2 63 := of_decide_eq_false positive
  rw [Nat.mod_eq_of_lt (by omega)]

theorem truncated_of_pos (positive : 0 < n.truncated) :
    n.isNegative = false ∧ n.truncated = n.wholePart := by
  unfold truncated at positive ⊢
  cases sign : n.isNegative with
  | false => exact ⟨rfl, if_neg Bool.false_ne_true⟩
  | true =>
      rw [sign, if_pos rfl] at positive
      omega

theorem floorLog2_nat (positive : whole ≠ 0) : floorLog2 whole 1 = (whole.log2 : Nat) := by
  have one : Nat.log2 1 = 0 := by decide
  have reached : 1 * Nat.pow 2 whole.log2 ≤ whole := by
    rw [Nat.one_mul]
    exact Nat.log2_self_le positive
  unfold floorLog2
  rw [one]
  simp only [Int.natCast_zero, Int.sub_zero, Int.natCast_nonneg, ↓reduceIte, Int.toNat_natCast,
    reached]

theorem roundQuotient_one (numerator : Nat) : roundQuotient numerator 1 = numerator := by
  unfold roundQuotient
  simp only [Nat.mod_one, Nat.mul_zero, Nat.zero_lt_one, ↓reduceIte, Nat.div_one]

/-- Scaled by a power of two, a small whole number fills the 53 bits of a mantissa. -/
theorem mantissa_bounds (positive : whole ≠ 0) (small : whole ≤ 65535) :
    whole.log2 ≤ 15 ∧ 2 ^ 52 ≤ whole * 2 ^ (52 - whole.log2) ∧
      whole * 2 ^ (52 - whole.log2) < 2 ^ 53 := by
  have few : whole.log2 < 16 := (Nat.log2_lt positive).mpr (by omega)
  have low := Nat.log2_self_le positive
  have high := @Nat.lt_log2_self whole
  refine ⟨by omega, ?_, ?_⟩
  · have scaled := Nat.mul_le_mul_right (2 ^ (52 - whole.log2)) low
    rw [← Nat.pow_add, Nat.add_sub_cancel' (by omega)] at scaled
    exact scaled
  · have scaled := Nat.mul_lt_mul_of_pos_right high (Nat.two_pow_pos (52 - whole.log2))
    rw [← Nat.pow_add, show whole.log2 + 1 + (52 - whole.log2) = 53 by omega] at scaled
    exact scaled

/-- The magnitude of a small whole number. -/
theorem ofNat_small (positive : whole ≠ 0) (small : whole ≤ 65535) :
    Number.ofNat whole =
      ofMagnitude false ((whole.log2 + 1022) * 2 ^ 52 + whole * 2 ^ (52 - whole.log2)) := by
  obtain ⟨few, low, high⟩ := mantissa_bounds positive small
  have scale : max ((whole.log2 : Int) - 52) (-1074) = whole.log2 - 52 := by omega
  have negative : ¬ 0 ≤ (whole.log2 : Int) - 52 := by omega
  have shift : (-((whole.log2 : Int) - 52)).toNat = 52 - whole.log2 := by omega
  have biased : ((whole.log2 : Int) - 52 + 1074).toNat = whole.log2 + 1022 := by omega
  have infinite : infinityBits = 2047 * 2 ^ 52 := rfl
  have power : ∀ exponent, Nat.pow 2 exponent = 2 ^ exponent := fun _ => rfl
  unfold Number.ofNat ofRatio
  simp only [positive, ↓reduceIte, floorLog2_nat positive, scale, negative, shift, biased,
    roundQuotient_one, power]
  rw [Nat.min_eq_left]
  rw [infinite]
  omega

/-- What scales a small whole number to a mantissa is told by its logarithm. -/
theorem log2_of_mantissa {shift : Nat} (low : 2 ^ 52 ≤ whole * 2 ^ shift)
    (high : whole * 2 ^ shift < 2 ^ 53) : shift ≤ 52 ∧ whole.log2 = 52 - shift := by
  have positive : whole ≠ 0 := by
    rintro rfl
    rw [Nat.zero_mul] at low
    exact absurd low (by decide)
  have close : shift ≤ 52 := by
    apply Nat.le_of_not_lt
    intro far
    have grown : 2 ^ 53 ≤ 2 ^ shift := Nat.pow_le_pow_right Nat.two_pos far
    have more := Nat.le_mul_of_pos_left (2 ^ shift) (Nat.pos_of_ne_zero positive)
    omega
  refine ⟨close, (Nat.log2_eq_iff positive).mpr ⟨?_, ?_⟩⟩
  · apply Nat.le_of_mul_le_mul_right _ (Nat.two_pow_pos shift)
    rw [← Nat.pow_add, Nat.sub_add_cancel close]
    exact low
  · apply Nat.lt_of_mul_lt_mul_right (a := 2 ^ shift)
    rw [← Nat.pow_add, show 52 - shift + 1 + shift = 53 by omega]
    exact high

/-- The fields of a number whose whole part is small, and which is nothing but that. -/
theorem magnitude_of_wholePart (integral : n.isIntegral = true) (positive : n.wholePart ≠ 0)
    (small : n.wholePart ≤ 65535) :
    n.magnitude =
      (n.wholePart.log2 + 1022) * 2 ^ 52 + n.wholePart * 2 ^ (52 - n.wholePart.log2) := by
  have power : ∀ exponent, Nat.pow 2 exponent = 2 ^ exponent := fun _ => rfl
  unfold isIntegral at integral
  unfold wholePart at positive small
  by_cases normal : n.magnitude < 2 ^ 52
  · -- Without a leading bit there is no whole part.
    have exponent : n.exponent = -1074 := by
      unfold Number.exponent
      rw [power, if_pos normal]
    have mantissa : n.mantissa = n.magnitude := by
      unfold Number.mantissa
      rw [power, if_pos normal]
    rw [exponent, mantissa, if_neg (by decide), power] at positive
    have grown : 2 ^ 52 ≤ 2 ^ (-(-1074 : Int)).toNat := Nat.pow_le_pow_right Nat.two_pos (by decide)
    exact absurd (Nat.div_eq_of_lt (Nat.lt_of_lt_of_le normal grown)) positive
  · have exponent : n.exponent = (n.magnitude / 2 ^ 52 : Nat) - 1075 := by
      unfold Number.exponent
      rw [power, if_neg normal]
    have mantissa : n.mantissa = 2 ^ 52 + n.magnitude % 2 ^ 52 := by
      unfold Number.mantissa
      rw [power, if_neg normal]
    by_cases large : 0 ≤ n.exponent
    · rw [if_pos large, power, mantissa] at small
      have more := Nat.le_mul_of_pos_right (2 ^ 52 + n.magnitude % 2 ^ 52)
        (Nat.two_pow_pos n.exponent.toNat)
      omega
    · obtain ⟨shift, shifted⟩ : ∃ shift, shift = (-n.exponent).toNat := ⟨_, rfl⟩
      have whole : n.wholePart = n.mantissa / 2 ^ shift := by
        unfold wholePart
        rw [if_neg large, power, shifted]
      have exact_ : n.mantissa % 2 ^ shift = 0 := by
        simp only [large, decide_false, Bool.false_or, Bool.and_eq_true, decide_eq_true_eq,
          power] at integral
        rw [shifted]
        exact integral.2
      have scaled : n.wholePart * 2 ^ shift = n.mantissa := by
        rw [whole, Nat.div_mul_cancel (Nat.dvd_of_mod_eq_zero exact_)]
      have low : 2 ^ 52 ≤ n.wholePart * 2 ^ shift := by
        rw [scaled, mantissa]
        omega
      have high : n.wholePart * 2 ^ shift < 2 ^ 53 := by
        rw [scaled, mantissa]
        omega
      obtain ⟨close, log⟩ := log2_of_mantissa low high
      rw [log, show 52 - (52 - shift) = shift by omega, scaled, mantissa]
      omega

/-- A positive whole number that is small is that of its magnitude. -/
theorem ofNat_wholePart (integral : n.isIntegral = true) (positive : 0 < n.truncated)
    (small : n.truncated ≤ 65535) : Number.ofNat n.wholePart = n := by
  obtain ⟨plus, same⟩ := truncated_of_pos positive
  rw [same] at positive small
  have nonzero : n.wholePart ≠ 0 := by omega
  have few : n.wholePart ≤ 65535 := by omega
  rw [ofNat_small nonzero few, ← magnitude_of_wholePart integral nonzero few, ofMagnitude,
    ← bits_eq_magnitude plus]
  simp only [Bool.false_eq_true, ↓reduceIte, Nat.add_zero, UInt64.ofNat_toNat]

theorem isNaN_of_isIntegral (integral : n.isIntegral = true) : n.isNaN = false := by
  unfold isIntegral isFinite at integral
  simp only [Bool.and_eq_true, decide_eq_true_eq] at integral
  unfold isNaN
  exact decide_eq_false (by omega)

end Number

end PocketScript
