import BotScript.Number.Decimal
import BotScript.Proofs.NumberForms
import BotScript.Proofs.SinglePrecision

namespace BotScript

/-!
# Number literals

A decimal number is rounded as the ratio that has its value.  The powers of ten
beyond which its digits are not looked at are outside of what doubles reach.

What a number is decoded to follows from what its form stands for.  The digits
of a base are a pattern of 32 bits where they fit, else one of 64 bits.
-/

/-! ## Rounding of decimal numbers -/

namespace Rounding

variable {numerator denominator bound : Nat} {exponent : Int}

/-- A scaled ratio is rounded as the ratio that has the scaled value. -/
theorem exists_nearestScaled
    (numerator : Nat)
    (positive : 0 < denominator)
    (exponent : Int) :
    ∃ scaledNumerator scaledDenominator,
      0 < scaledDenominator ∧
        nearestScaled numerator denominator exponent = nearest scaledNumerator scaledDenominator ∧
          (scaledNumerator : ℚ) / scaledDenominator =
            (numerator : ℚ) / denominator * 2 ^ exponent := by
  unfold nearestScaled
  split
  case isTrue isNatural =>
    obtain ⟨power, rfl⟩ := Int.eq_ofNat_of_zero_le isNatural
    refine ⟨_, _, positive, rfl, ?_⟩
    rw [Int.toNat_natCast, zpow_natCast, Nat.pow_eq, div_mul_eq_mul_div]
    norm_cast
  case isFalse isNegative =>
    obtain ⟨power, rfl⟩ := Int.eq_negSucc_of_lt_zero (Int.not_le.mp isNegative)
    refine ⟨_, _, Nat.mul_pos positive (Nat.two_pow_pos _), rfl, ?_⟩
    rw [Int.neg_negSucc, Int.toNat_natCast, zpow_negSucc, ← div_eq_mul_inv, div_div]
    norm_cast

/-- A scaled ratio that reaches an integer is not rounded to less. -/
theorem le_nearestScaled
    (positive : 0 < denominator)
    (reached : bound ≤ (numerator : ℚ) / denominator * 2 ^ exponent) :
    bound ≤ nearestScaled numerator denominator exponent := by
  obtain ⟨scaledNumerator, scaledDenominator, isPositive, rounded, isScaled⟩ :=
    exists_nearestScaled numerator positive exponent
  rw [← isScaled, le_div_iff₀ (Nat.cast_pos.mpr isPositive)] at reached
  have quotient : bound ≤ scaledNumerator / scaledDenominator :=
    (Nat.le_div_iff_mul_le isPositive).mpr (by exact_mod_cast reached)
  rw [rounded]
  unfold nearest
  dsimp only
  split <;> [skip; split <;> [skip; split]] <;> omega

/-- A scaled ratio below one half is rounded to zero. -/
theorem nearestScaled_eq_zero
    (positive : 0 < denominator)
    (small : (numerator : ℚ) / denominator * 2 ^ exponent < 1 / 2) :
    nearestScaled numerator denominator exponent = 0 := by
  obtain ⟨scaledNumerator, scaledDenominator, isPositive, rounded, isScaled⟩ :=
    exists_nearestScaled numerator positive exponent
  rw [← isScaled, div_lt_div_iff₀ (Nat.cast_pos.mpr isPositive) two_pos] at small
  have half : scaledNumerator * 2 < 1 * scaledDenominator := by exact_mod_cast small
  rw [rounded]
  unfold nearest
  rw [Nat.div_eq_of_lt (by omega), Nat.mod_eq_of_lt (by omega)]
  exact if_pos (by omega)

end Rounding

namespace Double

variable {numerator denominator : Nat}

/-- A ratio beyond the largest exponent is rounded to an infinity. -/
theorem ofRatio_large
    (negative : Bool)
    (positive : 0 < denominator)
    (large : 2 ^ (1024 : Int) ≤ (numerator : ℚ) / denominator) :
    ofRatio negative numerator denominator = infinity negative := by
  have value : (0 : ℚ) < numerator / denominator := lt_of_lt_of_le (zpow_pos two_pos _) large
  have isPositive : 0 < numerator :=
    Nat.cast_pos.mp ((div_pos_iff_of_pos_right (Nat.cast_pos.mpr positive)).mp value)
  have isLarge : 1024 ≤ Int.log 2 ((numerator : ℚ) / denominator) :=
    (Int.zpow_le_iff_le_log Nat.one_lt_two value).mp (by exact_mod_cast large)
  obtain ⟨exponent, isExponent⟩ :
      ∃ exponent, Int.log 2 ((numerator : ℚ) / denominator) - 52 = exponent := ⟨_, rfl⟩
  have significand :
      2 ^ 52 ≤ Rounding.nearestScaled numerator denominator (-exponent) := by
    refine Rounding.le_nearestScaled positive ?_
    have reached := Int.zpow_log_le_self Nat.one_lt_two value
    rw [show Int.log 2 ((numerator : ℚ) / denominator) = 52 + exponent by omega] at reached
    calc ((2 ^ 52 : Nat) : ℚ) = 2 ^ (52 + exponent) * 2 ^ (-exponent) := by
          rw [← zpow_add₀ two_ne_zero, add_neg_cancel_right]
          norm_num
      _ ≤ (numerator : ℚ) / denominator * 2 ^ (-exponent) :=
          mul_le_mul_of_nonneg_right (by exact_mod_cast reached) (zpow_nonneg zero_le_two _)
  have rounded :
      Rounding.toFormat Rounding.doubleFormat numerator denominator =
        (Rounding.nearestScaled numerator denominator (-exponent), exponent) := by
    have most :
        max (Int.log 2 ((numerator : ℚ) / denominator) - (53 - 1)) (-1074) = exponent := by
      omega
    unfold Rounding.toFormat
    rw [Rounding.magnitude_eq isPositive positive]
    exact congrArg (fun exponent =>
      (Rounding.nearestScaled numerator denominator (-exponent), exponent)) most
  unfold ofRatio
  rw [if_neg isPositive.ne', rounded]
  change pack _ _ _ = _
  unfold pack
  refine if_neg ?_
  simp only [hiddenBit]
  omega

/-- A ratio below half of the least positive number is rounded to zero. -/
theorem ofRatio_small
    (negative : Bool)
    (positive : 0 < denominator)
    (small : (numerator : ℚ) / denominator < 2 ^ (-1075 : Int)) :
    ofRatio negative numerator denominator = withSign negative 0 := by
  by_cases isZero : numerator = 0
  · exact if_pos isZero
  have isPositive := Nat.pos_of_ne_zero isZero
  have value : (0 : ℚ) < numerator / denominator :=
    div_pos (Nat.cast_pos.mpr isPositive) (Nat.cast_pos.mpr positive)
  have isSmall : Int.log 2 ((numerator : ℚ) / denominator) < -1075 :=
    (Int.lt_zpow_iff_log_lt Nat.one_lt_two value).mp (by exact_mod_cast small)
  have rounded :
      Rounding.toFormat Rounding.doubleFormat numerator denominator = (0, -1074) := by
    have least :
        max (Int.log 2 ((numerator : ℚ) / denominator) - (53 - 1)) (-1074) = -1074 := by
      omega
    have vanishes : Rounding.nearestScaled numerator denominator (-(-1074)) = 0 := by
      refine Rounding.nearestScaled_eq_zero positive ?_
      calc (numerator : ℚ) / denominator * 2 ^ (-(-1074) : Int)
          < 2 ^ (-1075 : Int) * 2 ^ (-(-1074) : Int) :=
            mul_lt_mul_of_pos_right small (zpow_pos two_pos _)
        _ = 1 / 2 := by
            rw [← zpow_add₀ two_ne_zero]
            norm_num
    unfold Rounding.toFormat
    rw [Rounding.magnitude_eq isPositive positive]
    refine (congrArg (fun exponent =>
      (Rounding.nearestScaled numerator denominator (-exponent), exponent)) least).trans ?_
    rw [vanishes]
  unfold ofRatio
  rw [if_neg isZero, rounded]
  rfl

end Double

namespace Decimal

/-- The magnitude of a decimal number. -/
def magnitude (decimal : Decimal) : ℚ :=
  decimal.digits * 10 ^ decimal.exponent

/-- The bounds of a number by the count of its digits. -/
theorem digits_bounds
    {digits : Nat}
    (positive : 0 < digits) :
    10 ^ ((Nat.toDigits 10 digits).length - 1) ≤ digits ∧
      digits < 10 ^ (Nat.toDigits 10 digits).length := by
  have some : 0 < (Nat.toDigits 10 digits).length := Nat.length_toDigits_pos
  refine ⟨?_, (Nat.length_toDigits_le_iff (by decide) some).mp (Nat.le_refl _)⟩
  by_cases single : (Nat.toDigits 10 digits).length = 1
  · rw [single]
    exact positive
  · have further : 0 < (Nat.toDigits 10 digits).length - 1 := by omega
    refine Nat.not_lt.mp fun below => ?_
    have short := (Nat.length_toDigits_le_iff (by decide) further).mpr below
    omega

/-- The bounds of a decimal number by the place of its first digit. -/
theorem magnitude_bounds
    {decimal : Decimal}
    {size : Int}
    (positive : 0 < decimal.digits)
    (isSize : size = (Nat.toDigits 10 decimal.digits).length) :
    (10 : ℚ) ^ (decimal.exponent + size - 1) ≤ decimal.magnitude ∧
      decimal.magnitude < 10 ^ (decimal.exponent + size) := by
  obtain ⟨reached, missed⟩ := digits_bounds positive
  have some : 0 < (Nat.toDigits 10 decimal.digits).length := Nat.length_toDigits_pos
  have power : (0 : ℚ) < 10 ^ decimal.exponent := zpow_pos (by norm_num) _
  have isLower : decimal.exponent + size - 1 =
      (((Nat.toDigits 10 decimal.digits).length - 1 : Nat) : Int) + decimal.exponent := by
    omega
  rw [isLower, isSize, add_comm decimal.exponent, zpow_add₀ (by norm_num), zpow_add₀ (by norm_num),
    zpow_natCast, zpow_natCast]
  exact ⟨mul_le_mul_of_nonneg_right (by exact_mod_cast reached) power.le,
    mul_lt_mul_of_pos_right (by exact_mod_cast missed) power⟩

/-- The magnitude of a decimal number is a ratio. -/
theorem exists_ratio (decimal : Decimal) :
    ∃ numerator denominator : Nat,
      0 < denominator ∧ decimal.magnitude = numerator / denominator := by
  cases sign : decimal.exponent with
  | ofNat power =>
      refine ⟨decimal.digits * 10 ^ power, 1, Nat.one_pos, ?_⟩
      simp [magnitude, sign]
  | negSucc power =>
      refine ⟨decimal.digits, 10 ^ (power + 1), Nat.pow_pos (by decide), ?_⟩
      simp [magnitude, sign, zpow_negSucc, div_eq_mul_inv]

/-- A power of ten is farther from one than the one of two with three times the exponent. -/
theorem powers_bounds (power : Nat) :
    (2 : ℚ) ^ (3 * power : Int) ≤ 10 ^ (power : Int) ∧
      (10 : ℚ) ^ (-power : Int) ≤ 2 ^ (-(3 * power) : Int) := by
  have positive : (0 : ℚ) < 2 ^ (3 * power : Int) := zpow_pos two_pos _
  have above : (2 : ℚ) ^ (3 * power : Int) ≤ 10 ^ (power : Int) := by
    rw [zpow_mul, zpow_natCast, zpow_natCast]
    exact pow_le_pow_left₀ (by norm_num) (by norm_num) power
  refine ⟨above, ?_⟩
  rw [zpow_neg, zpow_neg]
  exact inv_anti₀ positive above

/-- A decimal number is rounded as any ratio that has its magnitude. -/
theorem toDouble_eq_ofRatio
    {decimal : Decimal}
    {numerator denominator : Nat}
    (positive : 0 < denominator)
    (same : decimal.magnitude = numerator / denominator) :
    decimal.toDouble = Double.ofRatio decimal.negative numerator denominator := by
  have isPositive : (0 : ℚ) < denominator := Nat.cast_pos.mpr positive
  by_cases isZero : decimal.digits = 0
  · have noNumerator : numerator = 0 := by
      rw [magnitude, isZero, Nat.cast_zero, zero_mul, eq_comm, div_eq_zero_iff] at same
      exact_mod_cast same.resolve_right isPositive.ne'
    simp [toDouble, isZero, noNumerator, Double.ofRatio]
  have digitsPositive := Nat.pos_of_ne_zero isZero
  obtain ⟨size, isSize⟩ : ∃ size : Int, size = (Nat.toDigits 10 decimal.digits).length := ⟨_, rfl⟩
  obtain ⟨reached, missed⟩ := magnitude_bounds digitsPositive isSize
  have numeratorPositive : 0 < numerator := by
    have quotient : (0 : ℚ) < numerator / denominator := by
      rw [← same]
      exact lt_of_lt_of_le (zpow_pos (by norm_num) _) reached
    exact_mod_cast (div_pos_iff_of_pos_right isPositive).mp quotient
  unfold toDouble
  rw [← isSize]
  dsimp only
  split
  case isTrue isSmall =>
    have isSmall : decimal.exponent + size < -400 := by simpa [isZero] using isSmall
    refine (Double.ofRatio_small _ positive ?_).symm
    rw [← same]
    calc decimal.magnitude < 10 ^ (decimal.exponent + size) := missed
      _ ≤ 10 ^ (-(401 : Nat) : Int) := zpow_le_zpow_right₀ (by norm_num) (by omega)
      _ ≤ 2 ^ (-(3 * (401 : Nat)) : Int) := (powers_bounds 401).2
      _ ≤ 2 ^ (-1075 : Int) := zpow_le_zpow_right₀ one_le_two (by omega)
  case isFalse =>
    split
    case isTrue isLarge =>
      refine (Double.ofRatio_large _ positive ?_).symm
      rw [← same]
      calc (2 : ℚ) ^ (1024 : Int) ≤ 2 ^ (3 * (400 : Nat) : Int) :=
            zpow_le_zpow_right₀ one_le_two (by omega)
        _ ≤ 10 ^ ((400 : Nat) : Int) := (powers_bounds 400).1
        _ ≤ 10 ^ (decimal.exponent + size - 1) := zpow_le_zpow_right₀ (by norm_num) (by omega)
        _ ≤ decimal.magnitude := reached
    case isFalse =>
      split
      case isTrue isNatural =>
        obtain ⟨power, isPower⟩ := Int.eq_ofNat_of_zero_le isNatural
        refine Double.ofRatio_congr _ ?_ numeratorPositive Nat.one_pos positive ?_
        · exact Nat.mul_pos digitsPositive (Nat.pow_pos (by decide))
        · rw [← same, magnitude, isPower]
          simp
      case isFalse isNegative =>
        obtain ⟨power, isPower⟩ := Int.eq_negSucc_of_lt_zero (Int.not_le.mp isNegative)
        refine Double.ofRatio_congr _ digitsPositive numeratorPositive
          (Nat.pow_pos (by decide)) positive ?_
        rw [← same, magnitude, isPower, zpow_negSucc, ← div_eq_mul_inv, Int.neg_negSucc]
        simp

end Decimal

/-! ## Reading -/

namespace Decimal

variable {digits rest : List Char} {value : Nat}

/-- Decimal digits are told from zero by their value. -/
theorem toNat_sub_of_isDigitOf
    {digit : Char}
    (isDigit : IsDigitOf 10 digit value) :
    digit.toNat - '0'.toNat = value := by
  obtain ⟨less, isDigit⟩ := isDigit
  interval_cases value <;> simp at isDigit <;> subst isDigit <;> rfl

/-- Decimal digits are read one place after the other. -/
theorem digitsValue_from
    (start : Nat)
    (isNumeral : Numeral 10 digits value) :
    digits.foldl (fun value digit => value * 10 + (digit.toNat - '0'.toNat)) start =
      start * 10 ^ digits.length + value := by
  induction digits generalizing start value with
  | nil => simp [Literal.numeral_nil.mp isNumeral]
  | cons first digits inductionHypothesis =>
      obtain ⟨place, low, isDigit, rest, rfl⟩ := Literal.numeral_cons.mp isNumeral
      rw [List.foldl_cons, toNat_sub_of_isDigitOf isDigit, inductionHypothesis _ rest,
        List.length_cons, Nat.pow_succ]
      ring

/-- A numeral behind another one counts its own places only. -/
theorem digitsValue_append
    {more : List Char}
    {low : Nat}
    (isNumeral : Numeral 10 digits value)
    (isLow : Numeral 10 more low) :
    digitsValue (digits ++ more) = value * 10 ^ more.length + low := by
  rw [digitsValue, List.foldl_append, digitsValue_from 0 isNumeral, digitsValue_from _ isLow,
    Nat.zero_mul, Nat.zero_add]

/-- The digits at the start of a text are read up to the first other character. -/
theorem span_digits
    (isNumeral : Numeral 10 digits value)
    (stops : ∀ first, rest.head? = some first → first.isDigit = false) :
    (digits ++ rest).takeWhile Char.isDigit = digits ∧
      (digits ++ rest).dropWhile Char.isDigit = rest := by
  have all := Scan.isDigit_of_numeral isNumeral
  have none : rest.takeWhile Char.isDigit = [] ∧ rest.dropWhile Char.isDigit = rest := by
    cases rest with
    | nil => exact ⟨rfl, rfl⟩
    | cons first rest => simp [stops first rfl]
  rw [List.takeWhile_append_of_pos all, List.dropWhile_append_of_pos all, none.1, none.2]
  exact ⟨List.append_nil digits, rfl⟩

/-- An exponent is read up to the end of the text. -/
theorem readExponent_exponent
    {exponent : List Char}
    {power : Int}
    (isExponent : Exponent exponent power) :
    readExponent exponent = (power, []) := by
  cases isExponent with
  | none => rfl
  | @digits mark sign digits factor value isMark isSign isThere isNumeral =>
      have isMark : (mark == 'e' || mark == 'E') = true := by simpa using isMark
      obtain ⟨taken, dropped⟩ := @span_digits digits [] value isNumeral (by simp)
      rw [List.append_nil] at taken dropped
      have read : digitsValue digits = value := by
        simpa [digitsValue] using digitsValue_from 0 isNumeral
      obtain ⟨first, more, rfl⟩ := List.exists_cons_of_ne_nil isThere
      have isDigit := Scan.isDigit_of_numeral isNumeral first List.mem_cons_self
      simp only [readExponent, isMark, if_true]
      cases isSign with
      | none =>
          rw [List.nil_append]
          split
          case h_1 starts =>
            obtain ⟨rfl, -⟩ := List.cons.inj starts
            cases isDigit
          case h_2 starts =>
            obtain ⟨rfl, -⟩ := List.cons.inj starts
            cases isDigit
          case h_3 => simp [taken, dropped, read]
      | plus => simp [taken, dropped, read]
      | minus => simp [taken, dropped, read]

/-- A decimal number is read as a whole, with its value. -/
theorem read?_decimal
    {whole fraction exponent : List Char}
    {part : ℚ}
    {power : Int}
    (isThere : whole ≠ [])
    (isNumeral : Numeral 10 whole value)
    (isFraction : Fraction fraction part)
    (isExponent : Exponent exponent power) :
    ∃ decimal : Decimal,
      read? (whole ++ fraction ++ exponent) = some decimal ∧
        decimal.negative = false ∧ decimal.magnitude = (value + part) * 10 ^ power := by
  obtain ⟨first, more, rfl⟩ := List.exists_cons_of_ne_nil isThere
  have isDigit := Scan.isDigit_of_numeral isNumeral first List.mem_cons_self
  have exponentStops : ∀ mark, exponent.head? = some mark → mark.isDigit = false := by
    cases isExponent with
    | none => simp
    | digits isMark => rcases isMark with rfl | rfl <;> simp
  have noMinus : first ≠ '-' := by
    rintro rfl
    cases isDigit
  have noPlus : first ≠ '+' := by
    rintro rfl
    cases isDigit
  cases isFraction with
  | none =>
      have noPoint : ∀ rest, exponent ≠ '.' :: rest := by
        rintro rest rfl
        cases isExponent with
        | digits isMark => rcases isMark with isMark | isMark <;> cases isMark
      obtain ⟨taken, dropped⟩ := span_digits isNumeral exponentStops
      rw [List.append_nil]
      rw [List.cons_append] at taken dropped ⊢
      refine ⟨⟨false, digitsValue (first :: more), power⟩, ?_, rfl, ?_⟩
      · simp [read?, readLeading?, noMinus, noPlus, taken, dropped,
          readExponent_exponent isExponent]
      · have read : digitsValue (first :: more) = value := by
          simpa using digitsValue_append isNumeral (Literal.numeral_nil.mpr rfl)
        simp [magnitude, read]
  | @digits digits low isThere isLow =>
      have pointStops (mark : Char) :
          ('.' :: (digits ++ exponent)).head? = some mark → mark.isDigit = false := by
        rintro ⟨⟩
        rfl
      obtain ⟨taken, dropped⟩ := span_digits isNumeral pointStops
      obtain ⟨fractionTaken, fractionDropped⟩ := span_digits isLow exponentStops
      rw [List.append_assoc, List.cons_append, List.cons_append]
      rw [List.cons_append] at taken dropped
      refine ⟨⟨false, digitsValue (first :: more ++ digits), power - digits.length⟩, ?_, rfl, ?_⟩
      · simp [read?, readLeading?, noMinus, noPlus, taken, dropped, fractionTaken, fractionDropped,
          readExponent_exponent isExponent]
      · rw [digitsValue_append isNumeral isLow]
        simp only [magnitude]
        rw [zpow_sub₀ (by norm_num), zpow_natCast]
        push_cast
        field_simp

end Decimal

/--
What the meaning of a number is decoded to.  A pattern of bits stands for an
integer in two's complement, and a decimal value for the double nearest to it.
-/
inductive Decodes : NumberMeaning → Except ErrorCode NumberLiteral → Prop where
  | nothing : Decodes .nothing (.error .badNumber)
  | narrow {value : Nat} {number : Int64} :
      value < 2 ^ 32 → number.toInt = (BitVec.ofNat 32 value).toInt →
      Decodes (.pattern value) (.ok (.int number))
  | wide {value : Nat} {number : Int64} :
      2 ^ 32 ≤ value → value < 2 ^ 64 → number.toInt = (BitVec.ofNat 64 value).toInt →
      Decodes (.pattern value) (.ok (.int number))
  | tooWide {value : Nat} :
      2 ^ 64 ≤ value → Decodes (.pattern value) (.error .badNumber)
  | integer {value : Nat} {number : Int64} :
      value < 2 ^ 63 → number.toInt = value → Decodes (.integer value) (.ok (.int number))
  | tooLarge {value : Nat} :
      2 ^ 63 ≤ value → Decodes (.integer value) (.error .badNumber)
  | float {value : ℚ} {numerator denominator : Nat} :
      0 < denominator → value = numerator / denominator →
      Decodes (.decimal value) (.ok (.float (Double.ofRatio false numerator denominator)))

namespace Literal

variable {base value : Nat} {digits : List Char}

/-! ## Decoding -/

/-- A row of digits has no sign in front. -/
theorem numeral?_numeral
    (small : base ≤ 16)
    (isThere : digits ≠ [])
    (isNumeral : Numeral base digits value) :
    numeral? base digits = some value := by
  obtain ⟨first, more, rfl⟩ := List.exists_cons_of_ne_nil isThere
  have noPlus : first ≠ '+' := by
    rintro rfl
    obtain ⟨place, isDigit⟩ := exists_place isNumeral '+' List.mem_cons_self
    cases (digitValue?_eq_some_iff small).mpr isDigit
  simp [numeral?, noPlus, (digitsFrom?_zero small).mpr isNumeral]

/-- The digits of a base are a pattern of bits. -/
theorem radixNumber_decodes
    (small : base ≤ 16)
    (isThere : digits ≠ [])
    (isNumeral : Numeral base digits value) :
    Decodes (.pattern value) (radixNumber base digits) := by
  rw [radixNumber, numeral?_numeral small isThere isNumeral]
  dsimp only
  split
  case isTrue isNarrow =>
    refine .narrow isNarrow ?_
    rw [Int32.toInt_toInt64]
    rfl
  case isFalse isLarge =>
    split
    case isTrue isWide => exact .wide (Nat.not_lt.mp isLarge) isWide rfl
    case isFalse isTooWide => exact .tooWide (Nat.not_lt.mp isTooWide)

/-- Whether a character stands in no integer: a point, or the mark of an exponent. -/
def marksFloat (character : Char) : Bool :=
  character == '.' || character == 'e' || character == 'E'

/-- Without the mark of a base, a number is a decimal one or an integer. -/
theorem number_of_decimalForm
    {text : List Char}
    (isDecimal : Scan.DecimalForm text) :
    number text =
      if text.any marksFloat then
        (Decimal.read? text).elim (.error .badNumber) fun decimal => .ok (.float decimal.toDouble)
      else (integer? text).elim (.error .badNumber) fun value => .ok (.int value) := by
  unfold number
  split
  case h_1 => exact absurd .hexadecimal isDecimal.not_baseMark
  case h_2 => exact absurd .capitalHexadecimal isDecimal.not_baseMark
  case h_3 => exact absurd .binary isDecimal.not_baseMark
  case h_4 => exact absurd .capitalBinary isDecimal.not_baseMark
  case h_5 => cases Decimal.read? text <;> cases integer? text <;> rfl

/-- Decimal digits are an integer, if it fits 64 bits. -/
theorem integer?_numeral
    (isThere : digits ≠ [])
    (isNumeral : Numeral 10 digits value) :
    integer? digits = if value < 2 ^ 63 then some (Int64.ofNat value) else none := by
  obtain ⟨first, more, rfl⟩ := List.exists_cons_of_ne_nil isThere
  have isDigit := Scan.isDigit_of_numeral isNumeral first List.mem_cons_self
  have noMinus : first ≠ '-' := by
    rintro rfl
    cases isDigit
  have unsigned : numeral? 10 (first :: more) = some value :=
    numeral?_numeral (by decide) isThere isNumeral
  unfold integer?
  split
  case h_1 starts => exact absurd (List.cons.inj starts).1 noMinus
  case h_2 =>
    rw [unsigned]
    have bounds :
        (Int64.minValue.toInt ≤ (value : Int) && (value : Int) ≤ Int64.maxValue.toInt) = true ↔
          value < 2 ^ 63 := by
      rw [Bool.and_eq_true, decide_eq_true_eq, decide_eq_true_eq]
      simp only [Int64.toInt_minValue, Int64.toInt_maxValue]
      omega
    exact if_congr bounds rfl rfl

/-- A number is decoded to what its form stands for. -/
theorem number_decodes
    {text : List Char}
    {meaning : NumberMeaning}
    (isForm : NumberForm text meaning) :
    Decodes meaning (number text) := by
  cases isForm with
  | noDigits isMark => cases isMark <;> exact .nothing
  | based isMark isThere isNumeral =>
      cases isMark with
      | hexadecimal | capitalHexadecimal =>
          exact radixNumber_decodes (Nat.le_refl 16) isThere isNumeral
      | binary | capitalBinary => exact radixNumber_decodes (by decide) isThere isNumeral
  | integer isThere isNumeral =>
      have noFloat : ¬text.any marksFloat = true := by
        intro isFloat
        obtain ⟨character, inside, marks⟩ := List.any_eq_true.mp isFloat
        have isDigit := Scan.isDigit_of_numeral isNumeral character inside
        simp only [marksFloat, Bool.or_eq_true, beq_iff_eq] at marks
        rcases marks with (rfl | rfl) | rfl <;> cases isDigit
      rw [number_of_decimalForm (.integer isNumeral), if_neg noFloat,
        integer?_numeral isThere isNumeral]
      split
      case isTrue fits => exact .integer fits (Int64.toInt_ofNat_of_lt fits)
      case isFalse large => exact .tooLarge (Nat.not_lt.mp large)
  | @decimal whole fraction exponent _ _ _ isThere isNumeral isFraction isExponent isFloat =>
      obtain ⟨decimal, isRead, unsigned, isValue⟩ :=
        Decimal.read?_decimal isThere isNumeral isFraction isExponent
      have isFloat : (whole ++ fraction ++ exponent).any marksFloat = true := by
        cases isFraction with
        | digits => simp [marksFloat]
        | none =>
            cases isExponent with
            | none => exact absurd rfl isFloat
            | digits isMark => rcases isMark with rfl | rfl <;> simp [marksFloat]
      rw [number_of_decimalForm (.parts isNumeral isFraction isExponent), if_pos isFloat, isRead]
      obtain ⟨numerator, denominator, positive, isRatio⟩ := decimal.exists_ratio
      rw [Option.elim_some, Decimal.toDouble_eq_ofRatio positive isRatio, unsigned]
      exact .float positive (isValue.symm.trans isRatio)

end Literal

/--
A number is scanned as the longest one that the text holds where it starts, and
it is decoded to what its form stands for.
-/
theorem TokenList.ofSource_reads_numbers
    {constants : Constants}
    {source : String}
    {index : Nat}
    {token : Token}
    (here : (ofSource constants source).tokens[index]? = some token)
    (isNumber : token.kind = .number) :
    ∃ rest,
      source.toList =
          ((ofSource constants source).leading ++
            spelled ((ofSource constants source).tokens.toList.take index)).toList ++ rest ∧
        IsLongestPrefix (fun part => ∃ meaning, NumberForm part meaning) rest token.text.toList ∧
          ∀ meaning, NumberForm token.text.toList meaning →
            Decodes meaning (Literal.number token.text.toList) := by
  obtain ⟨rest, cut, isScanned⟩ := ofSource_scanned here
  rw [isNumber] at isScanned
  exact ⟨rest, cut, Scan.scanned_number isScanned, fun _ => Literal.number_decodes⟩

/-- A pattern of 32 bits in front of a number with a fraction and an exponent. -/
theorem TokenList.ofSource_reads_numbers_pattern :
    let list := ofSource .empty "x=0xFFFFFFFF+1.5e-3"
    ∃ token,
      list.tokens[2]? = some token ∧ token.kind = .number ∧
        IsLongestPrefix (fun part => ∃ meaning, NumberForm part meaning)
          "0xFFFFFFFF+1.5e-3".toList token.text.toList ∧
          NumberForm token.text.toList (.pattern 0xFFFFFFFF) ∧
            Literal.number token.text.toList = .ok (.int (-1)) := by
  intro list
  have facts :
      (list.tokens[2]?).map (fun token => (token.kind, token.text)) =
          some (.number, "0xFFFFFFFF") ∧
        list.leading ++ spelled (list.tokens.toList.take 2) = "x=" := by
    decide +kernel
  obtain ⟨isThere, before⟩ := facts
  obtain ⟨token, here, same⟩ := Option.map_eq_some_iff.mp isThere
  obtain ⟨isNumber, isText⟩ := Prod.mk.inj same
  have isForm : NumberForm token.text.toList (.pattern 0xFFFFFFFF) := by
    rw [isText]
    exact .based .hexadecimal (by decide) ((Literal.digitsFrom?_zero (Nat.le_refl 16)).mp (by rfl))
  obtain ⟨rest, cut, longest, decodes⟩ := ofSource_reads_numbers here isNumber
  refine ⟨token, here, isNumber, ?_, isForm, ?_⟩
  · rw [before] at cut
    obtain rfl : "0xFFFFFFFF+1.5e-3".toList = rest :=
      List.append_cancel_left (show "x=".toList ++ "0xFFFFFFFF+1.5e-3".toList = "x=".toList ++ rest
        from cut)
    exact longest
  · generalize Literal.number token.text.toList = answer at decodes ⊢
    cases decodes _ isForm with
    | narrow _ isValue =>
        have minusOne : (-1 : Int64).toInt = (BitVec.ofNat 32 0xFFFFFFFF).toInt := by decide
        rw [Int64.toInt_inj.mp (isValue.trans minusOne.symm)]
    | wide large => exact absurd large (by decide)
    | tooWide large => exact absurd large (by decide)

end BotScript
