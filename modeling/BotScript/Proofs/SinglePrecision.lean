import BotScript.Proofs.RoundedRatios

namespace BotScript

/-!
# Single precision

A number of single precision is a double that the rounding to single precision
leaves alone.  What is rounded once is such a number, and a sign does not matter.
-/

namespace Double

variable {number : Double} {negative : Bool} {absolute mask : UInt64}

/-! ## Signs -/

/-- A mask without the sign bit does not see the sign. -/
theorem withSign_and
    (negative : Bool)
    (absolute : UInt64)
    (unsigned : 0x8000000000000000 &&& mask = 0) :
    (withSign negative absolute).bits &&& mask = absolute &&& mask := by
  cases negative with
  | false => rfl
  | true =>
      apply UInt64.toBitVec_inj.mp
      have unsigned := congrArg UInt64.toBitVec unsigned
      ext index inside
      have unsigned := congrArg (·[index]) unsigned
      simp [withSign] at unsigned ⊢
      grind

/-- A mask without the sign bit does not see the flip of a sign. -/
theorem neg_and
    (number : Double)
    (unsigned : 0x8000000000000000 &&& mask = 0) :
    number.neg.bits &&& mask = number.bits &&& mask := by
  apply UInt64.toBitVec_inj.mp
  have unsigned := congrArg UInt64.toBitVec unsigned
  ext index inside
  have unsigned := congrArg (·[index]) unsigned
  simp [neg] at unsigned ⊢
  grind

/-- A pattern below the sign bit is the part of it below the sign bit. -/
theorem and_absolute
    (below : absolute < 0x8000000000000000) :
    absolute &&& 0x7FFFFFFFFFFFFFFF = absolute := by
  rw [← UInt64.toNat_inj, UInt64.toNat_and]
  exact Nat.and_two_pow_sub_one_of_lt_two_pow (n := 63) (UInt64.lt_iff_toNat_lt.mp below)

/-- The bits below the sign are below it. -/
theorem absoluteBits_lt (number : Double) : number.absoluteBits < 0x8000000000000000 := by
  unfold absoluteBits
  rw [UInt64.lt_iff_toNat_lt, UInt64.toNat_and]
  exact Nat.lt_of_le_of_lt Nat.and_le_right (by decide)

/-- The bits below the sign are those given. -/
theorem absoluteBits_withSign
    (negative : Bool)
    (below : absolute < 0x8000000000000000) :
    (withSign negative absolute).absoluteBits = absolute :=
  (withSign_and negative absolute (by rfl)).trans (and_absolute below)

/-- The sign is the one given. -/
theorem isNegative_withSign
    (negative : Bool)
    (below : absolute < 0x8000000000000000) :
    (withSign negative absolute).isNegative = negative := by
  cases negative with
  | false => simpa [isNegative, withSign] using below
  | true =>
      simp only [isNegative, withSign, if_true, decide_eq_true_eq, ge_iff_le,
        UInt64.le_iff_toNat_le, UInt64.toNat_or]
      exact Nat.right_le_or

/-- Where two patterns have no bit in common, both ways to join them are the same. -/
theorem or_eq_xor
    {first second : UInt64}
    (disjoint : first &&& second = 0) :
    first ||| second = first ^^^ second := by
  apply UInt64.toBitVec_inj.mp
  have disjoint := congrArg UInt64.toBitVec disjoint
  ext index inside
  have disjoint := congrArg (·[index]) disjoint
  simp at disjoint ⊢
  grind

/-- The other sign is the flipped one. -/
theorem withSign_not
    (negative : Bool)
    (below : absolute < 0x8000000000000000) :
    withSign (!negative) absolute = (withSign negative absolute).neg := by
  have unsigned : absolute &&& 0x8000000000000000 = 0 := by
    rw [← and_absolute below, UInt64.and_assoc]
    exact UInt64.and_zero
  have joined := or_eq_xor unsigned
  cases negative with
  | false => exact congrArg Double.mk joined
  | true =>
      refine congrArg Double.mk ?_
      change absolute = (absolute ||| 0x8000000000000000) ^^^ 0x8000000000000000
      rw [joined, UInt64.xor_assoc, UInt64.xor_self, UInt64.xor_zero]

/-! ## Packed numbers -/

/-- A finite number with its sign and its magnitude. -/
structure Holds (number : Double) (negative : Bool) (magnitude : ℚ) : Prop where
  finite : number.absoluteBits < 0x7FF0000000000000
  sign : number.isNegative = negative
  value : (number.ratio.1 : ℚ) / number.ratio.2 = magnitude

/-- The number of a significand of 53 bits and a biased exponent. -/
theorem holds_withSign
    (negative : Bool)
    {biased fraction : Nat}
    (normal : 0 < biased)
    (finite : biased < 2047)
    (short : fraction < hiddenBit) :
    (withSign negative (UInt64.ofNat (biased * hiddenBit + fraction))).Holds negative
      ((fraction + hiddenBit : Nat) * 2 ^ ((biased : Int) - 1075)) := by
  have pattern :
      (UInt64.ofNat (biased * hiddenBit + fraction)).toNat = biased * hiddenBit + fraction :=
    UInt64.toNat_ofNat_of_lt' (by simp only [hiddenBit, UInt64.size] at *; omega)
  have finite : UInt64.ofNat (biased * hiddenBit + fraction) < 0x7FF0000000000000 := by
    rw [UInt64.lt_iff_toNat_lt, pattern]
    change _ < 0x7FF0000000000000
    simp only [hiddenBit] at *
    omega
  have below : UInt64.ofNat (biased * hiddenBit + fraction) < 0x8000000000000000 :=
    UInt64.lt_trans finite (by decide)
  have absolute := absoluteBits_withSign negative below
  have exponentBits :
      ((withSign negative (UInt64.ofNat (biased * hiddenBit + fraction))).absoluteBits
        >>> 52).toNat = biased := by
    rw [absolute, UInt64.toNat_shiftRight, pattern]
    change (biased * hiddenBit + fraction) >>> 52 = biased
    rw [Nat.shiftRight_eq_div_pow]
    simp only [hiddenBit] at *
    omega
  have fractionBits :
      ((withSign negative (UInt64.ofNat (biased * hiddenBit + fraction))).bits
        &&& 0xFFFFFFFFFFFFF).toNat = fraction := by
    rw [withSign_and negative _ (by rfl), UInt64.toNat_and, pattern]
    change (biased * hiddenBit + fraction) &&& (2 ^ 52 - 1) = fraction
    rw [Nat.and_two_pow_sub_one_eq_mod]
    simp only [hiddenBit] at *
    omega
  have isSignificand :
      (withSign negative (UInt64.ofNat (biased * hiddenBit + fraction))).significand =
        fraction + hiddenBit := by
    unfold significand
    rw [fractionBits, if_neg]
    intro isZero
    rw [eq_of_beq isZero] at exponentBits
    exact Nat.ne_of_lt normal exponentBits
  have isExponent :
      (withSign negative (UInt64.ofNat (biased * hiddenBit + fraction))).exponent =
        (biased : Int) - 1075 := by
    unfold exponent
    rw [exponentBits, if_neg (Nat.ne_of_gt normal)]
  refine ⟨absolute.symm ▸ finite, isNegative_withSign negative below, ?_⟩
  refine (Rounding.value_ratioOf _ _).trans ?_
  rw [isSignificand, isExponent]

/-- A significand of single precision with an exponent of it is a number of double precision. -/
theorem holds_ofRatio
    (negative : Bool)
    {significand : Nat}
    {exponent : Int}
    (positive : 0 < significand)
    (short : significand < 2 ^ 24)
    (least : -149 ≤ exponent)
    (below : (significand : ℚ) * 2 ^ exponent < 2 ^ 128) :
    (ofRatio negative (Rounding.ratioOf significand exponent).1
      (Rounding.ratioOf significand exponent).2).Holds negative (significand * 2 ^ exponent) := by
  obtain ⟨bits, isShort, reached, missed⟩ := Rounding.exists_bits positive short
  have isLog : Int.log 2 ((significand : ℚ) * 2 ^ exponent) = bits + exponent :=
    Rounding.log_value reached missed
  have least_le : (bits : Int) + exponent < 128 := by
    rw [← isLog]
    refine (Int.lt_zpow_iff_log_lt Nat.one_lt_two ?_).mp (by exact_mod_cast below)
    exact mul_pos (Nat.cast_pos.mpr positive) (zpow_pos two_pos _)
  -- The significand with its first bit at the place of the hidden bit.
  obtain ⟨shift, isShift⟩ : ∃ shift, bits + shift = 52 := ⟨52 - bits, by omega⟩
  have aligned : hiddenBit ≤ significand * 2 ^ shift ∧ significand * 2 ^ shift < 2 * hiddenBit := by
    have isHidden : hiddenBit = 2 ^ bits * 2 ^ shift := by
      rw [← Nat.pow_add, isShift]
      rfl
    rw [isHidden]
    refine ⟨Nat.mul_le_mul_right _ reached, ?_⟩
    rw [← Nat.mul_assoc, ← Nat.pow_succ']
    exact Nat.mul_lt_mul_of_pos_right missed (Nat.two_pow_pos _)
  have exact :
      (significand : ℚ) * 2 ^ exponent =
        (significand * 2 ^ shift : Nat) * 2 ^ ((bits : Int) + exponent - 52) := by
    rw [Nat.cast_mul, mul_assoc, Nat.cast_pow, Nat.cast_two, ← zpow_natCast,
      ← zpow_add₀ two_ne_zero]
    congr 2
    omega
  have rounded :
      Rounding.toFormat Rounding.doubleFormat (Rounding.ratioOf significand exponent).1
          (Rounding.ratioOf significand exponent).2 =
        (significand * 2 ^ shift, (bits : Int) + exponent - 52) := by
    refine Rounding.toFormat_exact (Rounding.ratioOf_numerator_pos positive _)
      (Rounding.ratioOf_pos _ _) ((Rounding.value_ratioOf _ _).trans exact) ?_
    rw [Rounding.value_ratioOf, isLog]
    change max ((bits : Int) + exponent - (53 - 1)) (-1074) = _
    omega
  obtain ⟨biased, isBiased⟩ := Int.eq_ofNat_of_zero_le
    (show 0 ≤ (bits : Int) + exponent + 1023 by omega)
  obtain ⟨fraction, isFraction⟩ := Nat.exists_eq_add_of_le' aligned.1
  have packed :
      (withSign negative (UInt64.ofNat (biased * hiddenBit + fraction))).Holds negative
        ((fraction + hiddenBit : Nat) * 2 ^ ((biased : Int) - 1075)) :=
    holds_withSign negative (by omega) (by omega) (by omega)
  rw [exact]
  unfold ofRatio
  rw [if_neg (Rounding.ratioOf_numerator_pos positive _).ne', rounded]
  have isAbsolute :
      ((bits : Int) + exponent - 52 + 1074).toNat * hiddenBit + significand * 2 ^ shift =
        biased * hiddenBit + fraction := by
    have next : biased = ((bits : Int) + exponent - 52 + 1074).toNat + 1 := by omega
    rw [isFraction, next]
    ring
  change (pack _ _ _).Holds _ _
  unfold pack
  rw [isAbsolute, if_pos (by simp only [hiddenBit] at *; omega)]
  rwa [← isFraction, show (biased : Int) - 1075 = (bits : Int) + exponent - 52 by omega] at packed

/-! ## Rounding to single precision -/

/-- Equal ratios are nearest to the same double. -/
theorem ofRatio_congr
    (negative : Bool)
    {numerator denominator otherNumerator otherDenominator : Nat}
    (numeratorPositive : 0 < numerator)
    (otherNumeratorPositive : 0 < otherNumerator)
    (positive : 0 < denominator)
    (otherPositive : 0 < otherDenominator)
    (same : (numerator : ℚ) / denominator = otherNumerator / otherDenominator) :
    ofRatio negative numerator denominator = ofRatio negative otherNumerator otherDenominator := by
  unfold ofRatio
  rw [if_neg numeratorPositive.ne', if_neg otherNumeratorPositive.ne',
    Rounding.toFormat_congr _ numeratorPositive otherNumeratorPositive positive otherPositive
      (Rounding.ratio_congr positive otherPositive same)]

/-- Equal ratios are nearest to the same number of single precision. -/
theorem ofRatioSingle_congr
    (negative : Bool)
    {numerator denominator otherNumerator otherDenominator : Nat}
    (numeratorPositive : 0 < numerator)
    (otherNumeratorPositive : 0 < otherNumerator)
    (positive : 0 < denominator)
    (otherPositive : 0 < otherDenominator)
    (same : (numerator : ℚ) / denominator = otherNumerator / otherDenominator) :
    ofRatioSingle negative numerator denominator =
      ofRatioSingle negative otherNumerator otherDenominator := by
  unfold ofRatioSingle
  rw [if_neg numeratorPositive.ne', if_neg otherNumeratorPositive.ne',
    Rounding.toFormat_congr _ numeratorPositive otherNumeratorPositive positive otherPositive
      (Rounding.ratio_congr positive otherPositive same)]

/-- What a ratio becomes whose number of the single-precision format is known. -/
theorem ofRatioSingle_of_rounded
    (negative : Bool)
    {numerator denominator significand : Nat}
    {exponent : Int}
    (positive : 0 < numerator)
    (rounded :
      Rounding.toFormat Rounding.singleFormat numerator denominator = (significand, exponent)) :
    ofRatioSingle negative numerator denominator =
      if Rounding.reaches significand 1 (128 - exponent) then infinity negative
      else ofRatio negative (Rounding.ratioOf significand exponent).1
        (Rounding.ratioOf significand exponent).2 := by
  unfold ofRatioSingle Rounding.ratioOf
  rw [if_neg positive.ne', rounded]
  dsimp only
  split
  · rfl
  · split <;> rfl

/-- Whether a number of the single-precision format is too large. -/
theorem reaches_iff_large
    (significand : Nat)
    (exponent : Int) :
    Rounding.reaches significand 1 (128 - exponent) = true ↔
      2 ^ 128 ≤ (significand : ℚ) * 2 ^ exponent := by
  rw [Rounding.reaches_iff Nat.one_pos, Nat.cast_one, div_one, zpow_sub₀ two_ne_zero,
    div_le_iff₀ (zpow_pos two_pos _)]
  exact Iff.rfl

/-- A number of single precision is rounded to itself. -/
theorem ofRatioSingle_exact
    (negative : Bool)
    {significand : Nat}
    {exponent : Int}
    (positive : 0 < significand)
    (short : significand < 2 ^ 24)
    (least : -149 ≤ exponent)
    (below : (significand : ℚ) * 2 ^ exponent < 2 ^ 128) :
    ofRatioSingle negative (Rounding.ratioOf significand exponent).1
        (Rounding.ratioOf significand exponent).2 =
      ofRatio negative (Rounding.ratioOf significand exponent).1
        (Rounding.ratioOf significand exponent).2 := by
  obtain ⟨bits, isShort, reached, missed⟩ := Rounding.exists_bits positive short
  have isLog : Int.log 2 ((significand : ℚ) * 2 ^ exponent) = bits + exponent :=
    Rounding.log_value reached missed
  obtain ⟨last, isLast⟩ : ∃ last, max ((bits : Int) + exponent - 23) (-149) = last := ⟨_, rfl⟩
  obtain ⟨shift, isShift⟩ := Int.eq_ofNat_of_zero_le (show 0 ≤ exponent - last by omega)
  have exact :
      (significand : ℚ) * 2 ^ exponent = (significand * 2 ^ shift : Nat) * 2 ^ last := by
    rw [Nat.cast_mul, mul_assoc, Nat.cast_pow, Nat.cast_two, ← zpow_natCast,
      ← zpow_add₀ two_ne_zero]
    congr 2
    omega
  have rounded :
      Rounding.toFormat Rounding.singleFormat (Rounding.ratioOf significand exponent).1
          (Rounding.ratioOf significand exponent).2 =
        (significand * 2 ^ shift, last) := by
    refine Rounding.toFormat_exact (Rounding.ratioOf_numerator_pos positive _)
      (Rounding.ratioOf_pos _ _) ((Rounding.value_ratioOf _ _).trans exact) ?_
    rw [Rounding.value_ratioOf, isLog]
    exact isLast
  have shifted : 0 < significand * 2 ^ shift := Nat.mul_pos positive (Nat.two_pow_pos _)
  rw [ofRatioSingle_of_rounded negative (Rounding.ratioOf_numerator_pos positive _) rounded,
    if_neg (fun large => not_lt.mpr ((reaches_iff_large _ _).mp large) (exact ▸ below))]
  refine ofRatio_congr negative (Rounding.ratioOf_numerator_pos shifted _)
    (Rounding.ratioOf_numerator_pos positive _) (Rounding.ratioOf_pos _ _)
    (Rounding.ratioOf_pos _ _) ?_
  rw [Rounding.value_ratioOf, Rounding.value_ratioOf, exact]

/-- A number below the infinities is a number and no infinity. -/
theorem isFinite
    (finite : number.absoluteBits < 0x7FF0000000000000) :
    number.isNaN = false ∧ number.isInfinite = false := by
  constructor
  · exact decide_eq_false fun isAbove => UInt64.lt_asymm finite isAbove
  · exact beq_false_of_ne (UInt64.ne_of_lt finite)

/-- The rounding of a finite number. -/
theorem toSingle_of_finite
    (finite : number.absoluteBits < 0x7FF0000000000000) :
    number.toSingle = ofRatioSingle number.isNegative number.ratio.1 number.ratio.2 := by
  obtain ⟨isNumber, noInfinity⟩ := isFinite finite
  unfold toSingle
  rw [isNumber, noInfinity, if_neg Bool.false_ne_true, if_neg Bool.false_ne_true]

/-- An infinity is rounded to itself. -/
theorem toSingle_infinity (negative : Bool) : (infinity negative).toSingle = infinity negative := by
  have absolute : (infinity negative).absoluteBits = 0x7FF0000000000000 :=
    absoluteBits_withSign negative (by decide)
  have isNumber : (infinity negative).isNaN = false := by
    unfold isNaN
    rw [absolute]
    decide
  have isInfinite : (infinity negative).isInfinite = true := by
    unfold Double.isInfinite
    rw [absolute]
    decide
  unfold toSingle
  rw [isNumber, isInfinite, if_neg Bool.false_ne_true, if_pos rfl]

/-- A zero is rounded to itself. -/
theorem toSingle_zero (negative : Bool) :
    (withSign negative 0).toSingle = withSign negative 0 := by
  have absolute : (withSign negative 0).absoluteBits = 0 :=
    absoluteBits_withSign negative (by decide)
  have noFraction : (withSign negative 0).significand = 0 := by
    unfold significand
    rw [absolute, withSign_and negative 0 (by decide)]
    decide
  have noNumerator : (withSign negative 0).ratio.1 = 0 := by
    unfold ratio
    rw [noFraction]
    split
    · exact Nat.zero_mul _
    · rfl
  rw [toSingle_of_finite (absolute.symm ▸ by decide), isNegative_withSign negative (by decide)]
  unfold ofRatioSingle
  rw [noNumerator, if_pos rfl]

/-- A number of the single-precision format is rounded to itself. -/
theorem toSingle_ofRatio
    (negative : Bool)
    {significand : Nat}
    {exponent : Int}
    (positive : 0 < significand)
    (short : significand < 2 ^ 24)
    (least : -149 ≤ exponent)
    (below : (significand : ℚ) * 2 ^ exponent < 2 ^ 128) :
    (ofRatio negative (Rounding.ratioOf significand exponent).1
        (Rounding.ratioOf significand exponent).2).toSingle =
      ofRatio negative (Rounding.ratioOf significand exponent).1
        (Rounding.ratioOf significand exponent).2 := by
  have holds := holds_ofRatio negative positive short least below
  have exact := ofRatioSingle_exact negative positive short least below
  rw [toSingle_of_finite holds.finite, holds.sign, ← exact]
  have isPositive : (0 : ℚ) < significand * 2 ^ exponent :=
    mul_pos (Nat.cast_pos.mpr positive) (zpow_pos two_pos _)
  refine ofRatioSingle_congr negative ?_ (Rounding.ratioOf_numerator_pos positive _)
    (Rounding.ratioOf_pos _ _) (Rounding.ratioOf_pos _ _) ?_
  · refine Nat.pos_of_ne_zero fun isZero => isPositive.ne ?_
    rw [exact] at isZero
    rw [← holds.value, isZero, Nat.cast_zero, zero_div]
  · rw [exact, holds.value, Rounding.value_ratioOf]

/-- The ratio of no significand is rounded to a zero. -/
theorem ofRatio_zero
    (negative : Bool)
    (exponent : Int) :
    ofRatio negative (Rounding.ratioOf 0 exponent).1 (Rounding.ratioOf 0 exponent).2 =
      withSign negative 0 := by
  have noNumerator : (Rounding.ratioOf 0 exponent).1 = 0 := by
    unfold Rounding.ratioOf
    split
    · exact Nat.zero_mul _
    · rfl
  unfold ofRatio
  rw [if_pos noNumerator]

/-- What is rounded to single precision is a number of single precision. -/
theorem toSingle_ofRatioSingle
    (negative : Bool)
    (numerator : Nat)
    {denominator : Nat}
    (isPositive : 0 < denominator) :
    (ofRatioSingle negative numerator denominator).toSingle =
      ofRatioSingle negative numerator denominator := by
  obtain rfl | positive := Nat.eq_zero_or_pos numerator
  · exact toSingle_zero negative
  obtain ⟨⟨significand, exponent⟩, rounded⟩ :
      ∃ number, Rounding.toFormat Rounding.singleFormat numerator denominator = number := ⟨_, rfl⟩
  have least : -149 ≤ exponent := by
    have isExponent :
        (Rounding.toFormat Rounding.singleFormat numerator denominator).2 = exponent :=
      congrArg Prod.snd rounded
    rw [← isExponent]
    exact le_max_right _ _
  have short : significand ≤ 2 ^ 24 := by
    have isSignificand :
        (Rounding.toFormat Rounding.singleFormat numerator denominator).1 = significand :=
      congrArg Prod.fst rounded
    rw [← isSignificand]
    exact Rounding.toFormat_le Rounding.singleFormat positive isPositive
  rw [ofRatioSingle_of_rounded negative positive rounded]
  split
  · exact toSingle_infinity negative
  · next small =>
    have below : (significand : ℚ) * 2 ^ exponent < 2 ^ 128 :=
      not_le.mp fun large => small ((reaches_iff_large _ _).mpr large)
    obtain rfl | significandPositive := Nat.eq_zero_or_pos significand
    · rw [ofRatio_zero]
      exact toSingle_zero negative
    obtain short | rfl := Nat.lt_or_eq_of_le short
    · exact toSingle_ofRatio negative significandPositive short least below
    · -- A significand that has been rounded up to a power of two loses a bit.
      have halved : ((2 ^ 24 : Nat) : ℚ) * 2 ^ exponent = (2 ^ 23 : Nat) * 2 ^ (exponent + 1) := by
        rw [zpow_add₀ two_ne_zero, zpow_one]
        push_cast
        ring
      have same :
          ofRatio negative (Rounding.ratioOf (2 ^ 24) exponent).1
              (Rounding.ratioOf (2 ^ 24) exponent).2 =
            ofRatio negative (Rounding.ratioOf (2 ^ 23) (exponent + 1)).1
              (Rounding.ratioOf (2 ^ 23) (exponent + 1)).2 := by
        refine ofRatio_congr negative (Rounding.ratioOf_numerator_pos (Nat.two_pow_pos _) _)
          (Rounding.ratioOf_numerator_pos (Nat.two_pow_pos _) _) (Rounding.ratioOf_pos _ _)
          (Rounding.ratioOf_pos _ _) ?_
        rw [Rounding.value_ratioOf, Rounding.value_ratioOf, halved]
      rw [same]
      exact toSingle_ofRatio negative (Nat.two_pow_pos _) (by decide) (by omega) (halved ▸ below)

/-- Bits that are set stay set when others are. -/
theorem or_and_or
    {pattern set others : UInt64}
    (isSet : pattern &&& set = set) :
    (pattern ||| others) &&& (set ||| others) = set ||| others := by
  apply UInt64.toBitVec_inj.mp
  have isSet := congrArg UInt64.toBitVec isSet
  ext index inside
  have isSet := congrArg (·[index]) isSet
  simp at isSet ⊢
  grind

/-- Bits that are set are there. -/
theorem or_and_self
    (set others : UInt64) :
    (set ||| others) &&& set = set := by
  apply UInt64.toBitVec_inj.mp
  ext index inside
  simp
  grind

/-- What has no number has the bits of an infinity. -/
theorem and_infinity
    (isNaN : number.isNaN = true) :
    number.bits &&& 0x7FF0000000000000 = 0x7FF0000000000000 := by
  have isAbove := UInt64.lt_iff_toNat_lt.mp (of_decide_eq_true isNaN)
  have below := UInt64.lt_iff_toNat_lt.mp number.absoluteBits_lt
  obtain ⟨fraction, isFraction⟩ := Nat.exists_eq_add_of_lt isAbove
  change number.absoluteBits.toNat = 0x7FF0000000000000 + fraction + 1 at isFraction
  change number.absoluteBits.toNat < 0x8000000000000000 at below
  have joined :
      0x7FF0000000000000 ||| UInt64.ofNat (fraction + 1) = number.absoluteBits := by
    rw [← UInt64.toNat_inj, UInt64.toNat_or,
      UInt64.toNat_ofNat_of_lt' (show fraction + 1 < 2 ^ 64 by omega), isFraction]
    exact (Nat.two_pow_add_eq_or_of_lt (show fraction + 1 < 2 ^ 52 by omega) 2047).symm
  calc number.bits &&& 0x7FF0000000000000
      = number.bits &&& (0x7FFFFFFFFFFFFFFF &&& 0x7FF0000000000000) := congrArg _ (by decide)
    _ = number.absoluteBits &&& 0x7FF0000000000000 := (UInt64.and_assoc ..).symm
    _ = 0x7FF0000000000000 := by rw [← joined, or_and_self]

/-- What has no number is rounded to what has none. -/
theorem isNaN_toSingle
    (isNaN : number.isNaN = true) :
    (⟨number.quiet.bits &&& 0xFFFFFFFFE0000000⟩ : Double).isNaN = true := by
  have kept := and_infinity isNaN
  have quieted :
      number.quiet.bits &&& 0xFFFFFFFFE0000000 &&& 0x7FFFFFFFFFFFFFFF &&& 0x7FF8000000000000 =
        0x7FF8000000000000 := by
    rw [UInt64.and_assoc, UInt64.and_assoc]
    exact or_and_or kept
  refine decide_eq_true (UInt64.lt_of_lt_of_le (b := 0x7FF8000000000000) (by decide) ?_)
  rw [← quieted, UInt64.le_iff_toNat_le, UInt64.toNat_and]
  exact Nat.and_le_left

/-- The rounding of what has no number. -/
theorem toSingle_of_isNaN
    (isNaN : number.isNaN = true) :
    number.toSingle = ⟨number.quiet.bits &&& 0xFFFFFFFFE0000000⟩ := by
  unfold toSingle
  rw [if_pos isNaN]

/-- Rounding to single precision again changes nothing. -/
theorem toSingle_toSingle (number : Double) : number.toSingle.toSingle = number.toSingle := by
  by_cases isNaN : number.isNaN = true
  · rw [toSingle_of_isNaN isNaN, toSingle_of_isNaN (isNaN_toSingle isNaN)]
    refine congrArg Double.mk (UInt64.toBitVec_inj.mp ?_)
    ext index inside
    simp [quiet]
    grind
  by_cases isInfinite : number.isInfinite = true
  · have same : number.toSingle = number := by
      unfold toSingle
      rw [if_neg isNaN, if_pos isInfinite]
    rw [same, same]
  · have finite : number.absoluteBits < 0x7FF0000000000000 :=
      UInt64.lt_of_le_of_ne (UInt64.not_lt.mp fun isAbove => isNaN (decide_eq_true isAbove))
        fun same => isInfinite (beq_iff_eq.mpr same)
    rw [toSingle_of_finite finite]
    exact toSingle_ofRatioSingle _ _ (Rounding.ratioOf_pos _ _)

/-- An integer is rounded to a number of single precision. -/
theorem toSingle_ofInt64Single (value : Int64) :
    (ofInt64Single value).toSingle = ofInt64Single value := by
  unfold ofInt64Single
  split
  · exact toSingle_zero false
  · exact toSingle_ofRatioSingle _ _ Nat.one_pos

/-! ## Flipped signs -/

/-- A number is made of its sign and of the bits below it. -/
theorem withSign_self (number : Double) :
    withSign number.isNegative number.absoluteBits = number := by
  obtain ⟨bits⟩ := number
  refine congrArg Double.mk (UInt64.toNat_inj.mp ?_)
  have absolute : (absoluteBits ⟨bits⟩).toNat = bits.toNat % 2 ^ 63 := by
    unfold absoluteBits
    rw [UInt64.toNat_and]
    exact Nat.and_two_pow_sub_one_eq_mod _ 63
  have inside := UInt64.toNat_lt bits
  split
  · next isNegative =>
    have isNegative : 2 ^ 63 ≤ bits.toNat :=
      UInt64.le_iff_toNat_le.mp (of_decide_eq_true isNegative)
    rw [UInt64.toNat_or, absolute, Nat.or_comm]
    change 2 ^ 63 * 1 ||| bits.toNat % 2 ^ 63 = bits.toNat
    rw [← Nat.two_pow_add_eq_or_of_lt (Nat.mod_lt _ (Nat.two_pow_pos 63))]
    omega
  · next isPositive =>
    have isPositive : bits.toNat < 2 ^ 63 :=
      Nat.lt_of_not_le fun isNegative =>
        isPositive (decide_eq_true (UInt64.le_iff_toNat_le.mpr isNegative))
    rw [absolute, Nat.mod_eq_of_lt isPositive]

/-- A flip of the sign leaves the bits below it. -/
theorem absoluteBits_neg (number : Double) : number.neg.absoluteBits = number.absoluteBits :=
  neg_and number (by decide)

/-- A flip of the sign leaves the magnitude. -/
theorem ratio_neg (number : Double) : number.neg.ratio = number.ratio := by
  unfold ratio significand exponent
  rw [absoluteBits_neg, neg_and number (by decide)]

/-- A flip of the sign is one. -/
theorem isNegative_neg (number : Double) : number.neg.isNegative = !number.isNegative := by
  have flipped : number.neg = withSign (!number.isNegative) number.absoluteBits := by
    rw [withSign_not _ number.absoluteBits_lt, withSign_self]
  rw [flipped, isNegative_withSign _ number.absoluteBits_lt]

/-- A ratio with the other sign is rounded to the number with the other sign. -/
theorem ofRatio_not
    (negative : Bool)
    (numerator denominator : Nat) :
    ofRatio (!negative) numerator denominator = (ofRatio negative numerator denominator).neg := by
  unfold ofRatio
  split
  · exact withSign_not negative (by decide)
  · dsimp only
    unfold pack
    dsimp only
    split
    · next finite =>
      refine withSign_not negative (UInt64.lt_iff_toNat_lt.mpr ?_)
      rw [UInt64.toNat_ofNat_of_lt' (Nat.lt_trans finite (by decide))]
      exact Nat.lt_trans finite (by decide)
    · exact withSign_not negative (by decide)

/-- A ratio with the other sign is rounded to the number with the other sign. -/
theorem ofRatioSingle_not
    (negative : Bool)
    (numerator denominator : Nat) :
    ofRatioSingle (!negative) numerator denominator =
      (ofRatioSingle negative numerator denominator).neg := by
  unfold ofRatioSingle
  split
  · exact withSign_not negative (by decide)
  · dsimp only
    split
    · exact withSign_not negative (by decide)
    · split <;> exact ofRatio_not _ _ _

/-- Bits that a mask keeps are flipped before it or behind it. -/
theorem xor_or_and
    {pattern flipped set : UInt64}
    (disjoint : set &&& flipped = 0)
    (kept : mask &&& flipped = flipped) :
    ((pattern ^^^ flipped) ||| set) &&& mask = ((pattern ||| set) &&& mask) ^^^ flipped := by
  apply UInt64.toBitVec_inj.mp
  have disjoint := congrArg UInt64.toBitVec disjoint
  have kept := congrArg UInt64.toBitVec kept
  ext index inside
  have disjoint := congrArg (·[index]) disjoint
  have kept := congrArg (·[index]) kept
  simp at disjoint kept ⊢
  grind

/-- The rounding of a number with the other sign. -/
theorem toSingle_neg (number : Double) : number.neg.toSingle = number.toSingle.neg := by
  unfold toSingle
  rw [ratio_neg, isNegative_neg, ofRatioSingle_not]
  unfold isNaN isInfinite
  rw [absoluteBits_neg]
  split
  · exact congrArg Double.mk (xor_or_and (by decide) (by decide))
  · split <;> rfl

end Double

end BotScript
