import BotScript.Number.Double
import Mathlib.Algebra.Order.Field.Rat
import Mathlib.Data.Int.Log
import Mathlib.Data.Rat.Floor
import Mathlib.Tactic.FieldSimp
import Mathlib.Tactic.Positivity

namespace BotScript

/-!
# Rounded ratios

What a ratio is rounded to depends on its value only, and a value that a format has is
rounded to itself.
-/

namespace Rounding

variable {numerator denominator otherNumerator otherDenominator : Nat}

/-! ## The nearest integer -/

/-- A ratio with a common factor. -/
theorem nearest_mul
    (numerator denominator : Nat)
    {factor : Nat}
    (positive : 0 < factor) :
    nearest (numerator * factor) (denominator * factor) = nearest numerator denominator := by
  have below {first second : Nat} : first * factor < second * factor ↔ first < second :=
    Nat.mul_lt_mul_right positive
  unfold nearest
  rw [Nat.mul_div_mul_right _ _ positive, Nat.mul_mod_mul_right, ← Nat.mul_assoc]
  simp only [below]

/-- Equal ratios have the same nearest integer. -/
theorem nearest_congr
    (positive : 0 < denominator)
    (otherPositive : 0 < otherDenominator)
    (same : numerator * otherDenominator = otherNumerator * denominator) :
    nearest numerator denominator = nearest otherNumerator otherDenominator := by
  rw [← nearest_mul numerator denominator otherPositive, same,
    ← nearest_mul otherNumerator otherDenominator positive, Nat.mul_comm denominator]

/-- An integer is nearest to itself. -/
theorem nearest_exact
    (number : Nat)
    (positive : 0 < denominator) :
    nearest (number * denominator) denominator = number := by
  simp [nearest, Nat.mul_div_cancel number positive, positive]

/-- The nearest integer is not above an integer that bounds the ratio. -/
theorem nearest_le
    {bound : Nat}
    (below : numerator < bound * denominator) :
    nearest numerator denominator ≤ bound := by
  have quotient : numerator / denominator < bound := Nat.div_lt_of_lt_mul (Nat.mul_comm .. ▸ below)
  unfold nearest
  dsimp only
  split <;> [skip; split <;> [skip; split]] <;> omega

/-! ## Powers of two -/

/-- A ratio reaches a power of two if its value does. -/
theorem reaches_iff
    (positive : 0 < denominator)
    (exponent : Int) :
    reaches numerator denominator exponent = true ↔
      (2 : ℚ) ^ exponent ≤ (numerator : ℚ) / denominator := by
  have isPositive : (0 : ℚ) < denominator := Nat.cast_pos.mpr positive
  rw [le_div_iff₀ isPositive]
  unfold reaches
  split
  · next isNatural =>
    obtain ⟨power, rfl⟩ := Int.eq_ofNat_of_zero_le isNatural
    rw [decide_eq_true_eq, zpow_natCast, Int.toNat_natCast, mul_comm]
    exact_mod_cast Iff.rfl
  · next isNegative =>
    obtain ⟨power, rfl⟩ := Int.eq_negSucc_of_lt_zero (Int.not_le.mp isNegative)
    rw [decide_eq_true_eq, zpow_negSucc, Int.neg_negSucc, Int.toNat_natCast,
      inv_mul_le_iff₀ (by positivity), mul_comm]
    exact_mod_cast Iff.rfl

/-- A number is between its power of two and the next one. -/
theorem log_eq_of_bounds
    {value : ℚ}
    {exponent : Int}
    (positive : 0 < value)
    (reached : (2 : ℚ) ^ exponent ≤ value)
    (missed : value < (2 : ℚ) ^ (exponent + 1)) :
    Int.log 2 value = exponent := by
  refine Int.le_antisymm ?_ ?_
  · exact Int.lt_add_one_iff.mp ((Int.lt_zpow_iff_log_lt Nat.one_lt_two positive).mp
      (by exact_mod_cast missed))
  · exact (Int.zpow_le_iff_le_log Nat.one_lt_two positive).mp (by exact_mod_cast reached)

/-- The magnitude of a ratio is the logarithm of its value. -/
theorem magnitude_eq
    (positive : 0 < numerator)
    (isPositive : 0 < denominator) :
    magnitude numerator denominator = Int.log 2 ((numerator : ℚ) / denominator) := by
  have upper : (0 : ℚ) < numerator := Nat.cast_pos.mpr positive
  have lower : (0 : ℚ) < denominator := Nat.cast_pos.mpr isPositive
  -- Each number is between the power of two of its last bit and the next one.
  have bounds {number : Nat} (positive : 0 < number) :
      (2 : ℚ) ^ (number.log2 : Int) ≤ number ∧
        (number : ℚ) < (2 : ℚ) ^ ((number.log2 : Int) + 1) := by
    constructor
    · rw [zpow_natCast]
      exact_mod_cast Nat.log2_self_le positive.ne'
    · rw [← Nat.cast_succ, zpow_natCast]
      exact_mod_cast Nat.lt_log2_self
  obtain ⟨numeratorReached, numeratorMissed⟩ := bounds positive
  obtain ⟨denominatorReached, denominatorMissed⟩ := bounds isPositive
  have missed :
      (numerator : ℚ) / denominator <
        (2 : ℚ) ^ ((numerator.log2 : Int) - denominator.log2 + 1) := by
    rw [div_lt_iff₀ lower]
    calc (numerator : ℚ) < 2 ^ ((numerator.log2 : Int) + 1) := numeratorMissed
      _ = 2 ^ ((numerator.log2 : Int) - denominator.log2 + 1) * 2 ^ (denominator.log2 : Int) := by
        rw [← zpow_add₀ two_ne_zero]
        ring_nf
      _ ≤ _ := mul_le_mul_of_nonneg_left denominatorReached (zpow_nonneg zero_le_two _)
  have reached :
      (2 : ℚ) ^ ((numerator.log2 : Int) - denominator.log2 - 1) ≤ (numerator : ℚ) / denominator := by
    rw [le_div_iff₀ lower]
    calc (2 : ℚ) ^ ((numerator.log2 : Int) - denominator.log2 - 1) * denominator
        ≤ 2 ^ ((numerator.log2 : Int) - denominator.log2 - 1) *
            2 ^ ((denominator.log2 : Int) + 1) :=
          mul_le_mul_of_nonneg_left denominatorMissed.le (zpow_nonneg zero_le_two _)
      _ = 2 ^ (numerator.log2 : Int) := by
        rw [← zpow_add₀ two_ne_zero]
        ring_nf
      _ ≤ numerator := numeratorReached
  unfold magnitude
  dsimp only
  split
  · next isReached =>
    exact (log_eq_of_bounds (div_pos upper lower) ((reaches_iff isPositive _).mp isReached)
      missed).symm
  · next notReached =>
    refine (log_eq_of_bounds (div_pos upper lower) reached ?_).symm
    rw [Int.sub_add_cancel]
    exact not_le.mp fun isReached => notReached ((reaches_iff isPositive _).mpr isReached)

/-! ## Formats -/

/-- Equal ratios have equal values. -/
theorem value_congr
    (positive : 0 < denominator)
    (otherPositive : 0 < otherDenominator)
    (same : numerator * otherDenominator = otherNumerator * denominator) :
    (numerator : ℚ) / denominator = otherNumerator / otherDenominator := by
  rw [div_eq_div_iff (Nat.cast_ne_zero.mpr positive.ne') (Nat.cast_ne_zero.mpr otherPositive.ne')]
  exact_mod_cast same

/-- Equal values are those of equal ratios. -/
theorem ratio_congr
    (positive : 0 < denominator)
    (otherPositive : 0 < otherDenominator)
    (same : (numerator : ℚ) / denominator = otherNumerator / otherDenominator) :
    numerator * otherDenominator = otherNumerator * denominator := by
  rw [div_eq_div_iff (Nat.cast_ne_zero.mpr positive.ne')
    (Nat.cast_ne_zero.mpr otherPositive.ne')] at same
  exact_mod_cast same

/-- Equal ratios are nearest to the same number of a format. -/
theorem toFormat_congr
    (format : BinaryFormat)
    (numeratorPositive : 0 < numerator)
    (otherNumeratorPositive : 0 < otherNumerator)
    (positive : 0 < denominator)
    (otherPositive : 0 < otherDenominator)
    (same : numerator * otherDenominator = otherNumerator * denominator) :
    toFormat format numerator denominator = toFormat format otherNumerator otherDenominator := by
  have scaled (exponent : Int) :
      nearestScaled numerator denominator exponent =
        nearestScaled otherNumerator otherDenominator exponent := by
    unfold nearestScaled
    split
    · refine nearest_congr positive otherPositive ?_
      rw [Nat.mul_right_comm, same, Nat.mul_right_comm]
    · refine nearest_congr (Nat.mul_pos positive (Nat.two_pow_pos _))
        (Nat.mul_pos otherPositive (Nat.two_pow_pos _)) ?_
      rw [← Nat.mul_assoc, same, Nat.mul_assoc]
  unfold toFormat
  rw [magnitude_eq numeratorPositive positive, magnitude_eq otherNumeratorPositive otherPositive,
    value_congr positive otherPositive same]
  simp only [scaled]

/-- A scaled ratio that is an integer is rounded to it. -/
theorem nearestScaled_exact
    {number : Nat}
    {exponent : Int}
    (positive : 0 < denominator)
    (exact : (numerator : ℚ) / denominator * 2 ^ exponent = number) :
    nearestScaled numerator denominator exponent = number := by
  have isPositive : (denominator : ℚ) ≠ 0 := Nat.cast_ne_zero.mpr positive.ne'
  unfold nearestScaled
  split
  · next isNatural =>
    obtain ⟨power, rfl⟩ := Int.eq_ofNat_of_zero_le isNatural
    have same : numerator * Nat.pow 2 power = number * denominator := by
      rw [zpow_natCast, div_mul_eq_mul_div, div_eq_iff isPositive] at exact
      exact_mod_cast exact
    rw [Int.toNat_natCast, same, nearest_exact number positive]
  · next isNegative =>
    obtain ⟨power, rfl⟩ := Int.eq_negSucc_of_lt_zero (Int.not_le.mp isNegative)
    have same : numerator = number * (denominator * Nat.pow 2 (power + 1)) := by
      rw [zpow_negSucc, ← div_eq_mul_inv, div_div, div_eq_iff (by positivity)] at exact
      exact_mod_cast exact
    rw [Int.neg_negSucc, Int.toNat_natCast, same]
    exact nearest_exact number (Nat.mul_pos positive (Nat.two_pow_pos _))

/-- A scaled ratio below an integer is not rounded to more. -/
theorem nearestScaled_le
    {bound : Nat}
    {exponent : Int}
    (positive : 0 < denominator)
    (below : (numerator : ℚ) / denominator * 2 ^ exponent < bound) :
    nearestScaled numerator denominator exponent ≤ bound := by
  have isPositive : (0 : ℚ) < denominator := Nat.cast_pos.mpr positive
  unfold nearestScaled
  split
  · next isNatural =>
    obtain ⟨power, rfl⟩ := Int.eq_ofNat_of_zero_le isNatural
    refine nearest_le ?_
    rw [zpow_natCast, div_mul_eq_mul_div, div_lt_iff₀ isPositive] at below
    rw [Int.toNat_natCast]
    exact_mod_cast below
  · next isNegative =>
    obtain ⟨power, rfl⟩ := Int.eq_negSucc_of_lt_zero (Int.not_le.mp isNegative)
    refine nearest_le ?_
    rw [zpow_negSucc, ← div_eq_mul_inv, div_div, div_lt_iff₀ (by positivity)] at below
    rw [Int.neg_negSucc, Int.toNat_natCast]
    exact_mod_cast below

/-- The significand of a number of a format has no more bits than that, or is the next power. -/
theorem toFormat_le
    (format : BinaryFormat)
    (positive : 0 < numerator)
    (isPositive : 0 < denominator) :
    (toFormat format numerator denominator).1 ≤ 2 ^ format.precision := by
  have value : (0 : ℚ) < numerator / denominator :=
    div_pos (Nat.cast_pos.mpr positive) (Nat.cast_pos.mpr isPositive)
  unfold toFormat
  dsimp only
  refine nearestScaled_le isPositive ?_
  rw [magnitude_eq positive isPositive]
  generalize isExponent : max (Int.log 2 ((numerator : ℚ) / denominator) - (format.precision - 1))
    format.leastExponent = exponent
  have above : Int.log 2 ((numerator : ℚ) / denominator) + 1 ≤ exponent + format.precision := by
    omega
  calc (numerator : ℚ) / denominator * 2 ^ (-exponent)
      < 2 ^ (Int.log 2 ((numerator : ℚ) / denominator) + 1) * 2 ^ (-exponent) :=
        mul_lt_mul_of_pos_right
          (by exact_mod_cast Int.lt_zpow_succ_log_self Nat.one_lt_two ((numerator : ℚ) / denominator))
          (zpow_pos two_pos _)
    _ ≤ 2 ^ (exponent + format.precision) * 2 ^ (-exponent) :=
        mul_le_mul_of_nonneg_right (zpow_le_zpow_right₀ one_le_two above)
          (zpow_nonneg zero_le_two _)
    _ = ((2 ^ format.precision : Nat) : ℚ) := by
        rw [← zpow_add₀ two_ne_zero, show exponent + format.precision + -exponent =
          (format.precision : Int) by omega, zpow_natCast]
        norm_cast

/-- A value that a format has is rounded to itself. -/
theorem toFormat_exact
    {format : BinaryFormat}
    {significand : Nat}
    {exponent : Int}
    (positive : 0 < numerator)
    (isPositive : 0 < denominator)
    (exact : (numerator : ℚ) / denominator = significand * 2 ^ exponent)
    (isExponent :
      max (Int.log 2 ((numerator : ℚ) / denominator) - (format.precision - 1))
        format.leastExponent = exponent) :
    toFormat format numerator denominator = (significand, exponent) := by
  unfold toFormat
  rw [magnitude_eq positive isPositive, isExponent]
  refine Prod.ext (nearestScaled_exact isPositive ?_) rfl
  rw [exact, mul_assoc, ← zpow_add₀ two_ne_zero, add_neg_cancel, zpow_zero, mul_one]

/-! ## Significands with exponents -/

/-- A significand times a power of two, as a ratio. -/
def ratioOf (significand : Nat) (exponent : Int) : Nat × Nat :=
  if 0 ≤ exponent then (significand * Nat.pow 2 exponent.toNat, 1)
  else (significand, Nat.pow 2 (-exponent).toNat)

/-- The denominator of such a ratio is positive. -/
theorem ratioOf_pos (significand : Nat) (exponent : Int) : 0 < (ratioOf significand exponent).2 := by
  unfold ratioOf
  split
  · exact Nat.one_pos
  · exact Nat.two_pow_pos _

/-- The numerator of the ratio of a positive significand is positive. -/
theorem ratioOf_numerator_pos
    {significand : Nat}
    (positive : 0 < significand)
    (exponent : Int) :
    0 < (ratioOf significand exponent).1 := by
  unfold ratioOf
  split
  · exact Nat.mul_pos positive (Nat.two_pow_pos _)
  · exact positive

/-- The value of a significand times a power of two. -/
theorem value_ratioOf (significand : Nat) (exponent : Int) :
    ((ratioOf significand exponent).1 : ℚ) / (ratioOf significand exponent).2 =
      significand * 2 ^ exponent := by
  unfold ratioOf
  split
  · next isNatural =>
    obtain ⟨power, rfl⟩ := Int.eq_ofNat_of_zero_le isNatural
    rw [Int.toNat_natCast, zpow_natCast, Nat.pow_eq]
    push_cast
    rw [div_one]
  · next isNegative =>
    obtain ⟨power, rfl⟩ := Int.eq_negSucc_of_lt_zero (Int.not_le.mp isNegative)
    rw [Int.neg_negSucc, Int.toNat_natCast, zpow_negSucc, ← div_eq_mul_inv, Nat.pow_eq]
    push_cast
    rfl

/-- The place of the first bit of a significand. -/
theorem exists_bits
    {significand width : Nat}
    (positive : 0 < significand)
    (short : significand < 2 ^ width) :
    ∃ bits < width, 2 ^ bits ≤ significand ∧ significand < 2 ^ (bits + 1) := by
  refine ⟨significand.log2, ?_, Nat.log2_self_le positive.ne', Nat.lt_log2_self⟩
  exact (Nat.log2_lt positive.ne').mpr short

/-- The logarithm of a significand times a power of two. -/
theorem log_value
    {significand bits : Nat}
    {exponent : Int}
    (reached : 2 ^ bits ≤ significand)
    (missed : significand < 2 ^ (bits + 1)) :
    Int.log 2 ((significand : ℚ) * 2 ^ exponent) = bits + exponent := by
  have power : (0 : ℚ) < 2 ^ exponent := zpow_pos two_pos _
  have positive : (0 : ℚ) < significand :=
    Nat.cast_pos.mpr (Nat.lt_of_lt_of_le (Nat.two_pow_pos bits) reached)
  refine log_eq_of_bounds (mul_pos positive power) ?_ ?_
  · rw [zpow_add₀ two_ne_zero, zpow_natCast]
    exact mul_le_mul_of_nonneg_right (by exact_mod_cast reached) power.le
  · rw [add_right_comm, zpow_add₀ two_ne_zero, ← Nat.cast_succ, zpow_natCast]
    exact mul_lt_mul_of_pos_right (by exact_mod_cast missed) power

end Rounding

end BotScript
