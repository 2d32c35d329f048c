import BotScript.Proofs.ConstantValues

namespace BotScript

/-!
# Integer arithmetic is exact modulo the width

Results are computed in 64 bits and wrapped to the width of the operands
afterwards.  What comes out is told here over all integers: sums, products and
powers are the exact ones reduced to the signed range, quotients are truncated,
and shift counts are taken modulo the width, also when they are negative.
-/

/-- The types that arithmetic on integers is done in, with their width in bits. -/
inductive Ty.WrapsAt : Ty → Nat → Prop where
  | int : WrapsAt .int 32
  | long : WrapsAt .long 64

/-- An integer in the signed range of a width. -/
def InSigned (width : Nat) (content : Int) : Prop :=
  -2 ^ (width - 1) ≤ content ∧ content < 2 ^ (width - 1)

/-- The pattern of an integer in a number of bits. -/
abbrev pattern (width : Nat) (content : Int) : BitVec width :=
  BitVec.ofInt width content

/-- The factor by which a shift multiplies or divides: its count is taken modulo the width. -/
def shiftFactor (width : Nat) (count : Int) : Int :=
  2 ^ (count % width).toNat

namespace BinaryOp

/--
What an operator on integers of a width leads to, worked out over all integers.
`Int.bmod` by a power of two is the reduction to the signed range of a width.
-/
inductive Exact (width : Nat) (left right : Int) :
    BinaryOp → Except ErrorCode Value → Prop where
  | add {result : Int64} :
      result.toInt = (left + right).bmod (2 ^ width) →
      Exact width left right .add (.ok (.int result))
  | sub {result : Int64} :
      result.toInt = (left - right).bmod (2 ^ width) →
      Exact width left right .sub (.ok (.int result))
  | mul {result : Int64} :
      result.toInt = (left * right).bmod (2 ^ width) →
      Exact width left right .mul (.ok (.int result))
  | divZero : right = 0 → Exact width left right .div (.error .zeroDivision)
  /-- The one quotient that is out of range wraps to the minimum itself. -/
  | divMinimum {result : Int64} :
      left = -2 ^ (width - 1) → right = -1 → result.toInt = left →
      Exact width left right .div (.ok (.int result))
  | div {result : Int64} :
      right ≠ 0 → ¬(left = -2 ^ (width - 1) ∧ right = -1) → result.toInt = left.tdiv right →
      Exact width left right .div (.ok (.int result))
  | modZero : right = 0 → Exact width left right .mod (.error .zeroDivision)
  | mod {result : Int64} :
      right ≠ 0 → result.toInt = left.tmod right →
      Exact width left right .mod (.ok (.int result))
  | pow {result : Int64} :
      0 ≤ right → right < 2 ^ 32 → result.toInt = (left ^ right.toNat).bmod (2 ^ width) →
      Exact width left right .pow (.ok (.int result))
  /-- A power with another exponent is a rounded one, in range all the same. -/
  | roundedPow {result : Int64} :
      ¬(0 ≤ right ∧ right < 2 ^ 32) → InSigned width result.toInt →
      Exact width left right .pow (.ok (.int result))
  | shl {result : Int64} :
      result.toInt = (left * shiftFactor width right).bmod (2 ^ width) →
      Exact width left right .shl (.ok (.int result))
  | shr {result : Int64} :
      result.toInt = left.fdiv (shiftFactor width right) →
      Exact width left right .shr (.ok (.int result))
  | ushr {result : Int64} :
      result.toInt =
        (((pattern width left).toNat : Int).fdiv (shiftFactor width right)).bmod (2 ^ width) →
      Exact width left right .ushr (.ok (.int result))
  | bitAnd {result : Int64} :
      result.toInt = (pattern width left &&& pattern width right).toInt →
      Exact width left right .bitAnd (.ok (.int result))
  | bitOr {result : Int64} :
      result.toInt = (pattern width left ||| pattern width right).toInt →
      Exact width left right .bitOr (.ok (.int result))
  | bitXor {result : Int64} :
      result.toInt = (pattern width left ^^^ pattern width right).toInt →
      Exact width left right .bitXor (.ok (.int result))
  | eq : Exact width left right .eq (.ok (.bool (Decidable.decide (left = right))))
  | ne : Exact width left right .ne (.ok (.bool (Decidable.decide (left ≠ right))))
  | lt : Exact width left right .lt (.ok (.bool (Decidable.decide (left < right))))
  | le : Exact width left right .le (.ok (.bool (Decidable.decide (left ≤ right))))
  | gt : Exact width left right .gt (.ok (.bool (Decidable.decide (left > right))))
  | ge : Exact width left right .ge (.ok (.bool (Decidable.decide (left ≥ right))))

end BinaryOp

section Wrapping

variable {ty : Ty} {width : Nat}
  (wrapsAt : ty.WrapsAt width)

include wrapsAt

/-- Widths are those of the type. -/
theorem Ty.WrapsAt.integerBits :
    ty.integerBits? = some width := by
  cases wrapsAt <;> rfl

/-- A type that arithmetic is done in is one of integers. -/
theorem Ty.WrapsAt.isInteger :
    ty.isInteger = true := by
  cases wrapsAt <;> rfl

/-- Both widths divide the 64 bits that results are computed in. -/
theorem Ty.WrapsAt.dvd :
    width ∣ 64 := by
  cases wrapsAt <;> decide

/-- Patterns of either width are found in those of 64 bits. -/
theorem Ty.WrapsAt.pow_dvd :
    2 ^ width ∣ 2 ^ 64 :=
  Nat.pow_dvd_pow 2 (Nat.le_of_dvd (by decide) wrapsAt.dvd)

/-- Wrapping is the reduction to the signed range. -/
theorem Ty.WrapsAt.toInt_wrap
    (content : Int64) :
    (ty.wrap content).toInt = content.toInt.bmod (2 ^ width) := by
  cases wrapsAt with
  | int => simp [wrap]
  | long =>
      change content.toInt = _
      rw [Int.bmod_eq_of_le_mul_two]
      · have := content.le_toInt
        omega
      · have := content.toInt_lt
        omega

/-- What is reduced to 64 bits first is reduced as well as at once. -/
theorem Ty.WrapsAt.toInt_wrap_eq
    {content : Int64}
    {exact : Int}
    (reduced : content.toInt = exact.bmod (2 ^ 64)) :
    (ty.wrap content).toInt = exact.bmod (2 ^ width) := by
  rw [wrapsAt.toInt_wrap, reduced, Int.bmod_bmod_of_dvd wrapsAt.pow_dvd]

/-- An integer in the signed range is its own reduction. -/
theorem InSigned.bmod_eq
    {content : Int}
    (inside : InSigned width content) :
    content.bmod (2 ^ width) = content := by
  obtain ⟨low, high⟩ := inside
  cases wrapsAt <;> exact Int.bmod_eq_of_le_mul_two (by omega) (by omega)

/-- Wrapped integers are in the signed range. -/
theorem Ty.WrapsAt.wrap_inSigned
    (content : Int64) :
    InSigned width (ty.wrap content).toInt := by
  rw [wrapsAt.toInt_wrap]
  have low := Int.le_bmod (x := content.toInt) (Nat.two_pow_pos width)
  have high := Int.bmod_lt (x := content.toInt) (Nat.two_pow_pos width)
  cases wrapsAt <;> exact ⟨by omega, by omega⟩

/-- The pattern of a wrapped integer is the lower part of the pattern in 64 bits. -/
theorem Ty.WrapsAt.toInt_wrap_setWidth
    (content : Int64) :
    (ty.wrap content).toInt = (content.toBitVec.setWidth width).toInt := by
  rw [wrapsAt.toInt_wrap, BitVec.toInt_setWidth, ← Int64.toInt_toBitVec,
    BitVec.toInt_eq_toNat_bmod, Int.bmod_bmod_of_dvd wrapsAt.pow_dvd]

/-- The pattern of an integer is the lower part of its pattern in 64 bits. -/
theorem Ty.WrapsAt.setWidth_toBitVec
    (content : Int64) :
    content.toBitVec.setWidth width = pattern width content.toInt := by
  apply BitVec.eq_of_toInt_eq
  rw [← wrapsAt.toInt_wrap_setWidth, wrapsAt.toInt_wrap, BitVec.toInt_ofInt]

end Wrapping

section Shifts

variable {ty : Ty} {width : Nat} {left right : Int64}

/-- The count of a shift is the right operand modulo the width, also for a negative operand. -/
theorem Ty.WrapsAt.count_toInt
    (wrapsAt : ty.WrapsAt width)
    (right : Int64) :
    (right.toUInt64.toNat % width : Nat) = (right.toInt % width).toNat := by
  have pattern : (right.toUInt64.toNat : Int) = right.toInt % (2 ^ 64 : Nat) := by
    rw [← Int64.toNat_toBitVec, ← Int64.toInt_toBitVec, BitVec.toInt_eq_toNat_bmod, Int.bmod_emod]
    exact (Int.emod_eq_of_lt (by omega) (by omega)).symm
  have divides : (width : Int) ∣ (2 ^ 64 : Nat) := by cases wrapsAt <;> decide
  rw [← Int.emod_emod_of_dvd right.toInt divides, ← pattern]
  omega

/-- A count below 64 shifts by itself. -/
theorem smod_count
    {count : Nat}
    (small : count < 64) :
    ((Int64.ofNat count).toBitVec.smod 64).toNat = count := by
  have same : (Int64.ofNat count).toBitVec.smod 64 = BitVec.ofNat 64 count := by
    apply BitVec.eq_of_toInt_eq
    have sixtyFour : (64 : BitVec 64).toInt = 64 := by decide
    have itself : (BitVec.ofNat 64 count).toInt = count := by
      rw [BitVec.toInt_ofNat', Int.bmod_eq_of_le_mul_two (by omega) (by omega)]
    rw [BitVec.toInt_smod, Int64.toInt_toBitVec, Int64.toInt_ofNat_of_lt (by omega), sixtyFour,
      itself]
    exact Int.fmod_eq_of_lt (by omega) (by omega)
  rw [same, BitVec.toNat_ofNat, Nat.mod_eq_of_lt (by omega)]

/-- A shift to the left multiplies, modulo 64 bits. -/
theorem toInt_shiftLeft
    {count : Nat}
    (small : count < 64) :
    (left <<< Int64.ofNat count).toInt = (left.toInt * 2 ^ count).bmod (2 ^ 64) := by
  rw [← Int64.toInt_toBitVec, Int64.toBitVec_shiftLeft, BitVec.shiftLeft_eq', smod_count small]
  rw [BitVec.toInt_shiftLeft, Nat.shiftLeft_eq, ← Int64.toInt_toBitVec]
  rw [BitVec.toInt_eq_toNat_bmod, Int.bmod_mul_bmod]
  push_cast
  rfl

/-- A shift to the right divides towards the smaller integer. -/
theorem toInt_shiftRight
    {count : Nat}
    (small : count < 64) :
    (left >>> Int64.ofNat count).toInt = left.toInt.fdiv (2 ^ count) := by
  rw [← Int64.toInt_toBitVec, Int64.toBitVec_shiftRight, BitVec.sshiftRight', smod_count small]
  rw [BitVec.toInt_sshiftRight, Int.shiftRight_eq_div_pow, Int64.toInt_toBitVec]
  rw [Int.fdiv_eq_ediv_of_nonneg _ (by positivity)]
  push_cast
  rfl

/-- A shift of an unsigned pattern divides it. -/
theorem toInt_shiftRight_unsigned
    {count : Nat}
    (bits : UInt64)
    (small : count < 64) :
    (bits >>> (Int64.ofNat count).toUInt64).toInt64.toInt =
      ((bits.toNat : Int).fdiv (2 ^ count)).bmod (2 ^ 64) := by
  have itself : (Int64.ofNat count).toUInt64.toNat % 64 = count := by
    rw [Int64.toUInt64_ofNat', UInt64.toNat_ofNat', Nat.mod_eq_of_lt (by omega : count < 2 ^ 64),
      Nat.mod_eq_of_lt small]
  rw [← Int64.toInt_toBitVec, UInt64.toBitVec_toInt64, BitVec.toInt_eq_toNat_bmod]
  rw [UInt64.toNat_toBitVec, UInt64.toNat_shiftRight, itself, Nat.shiftRight_eq_div_pow]
  rw [Int.fdiv_eq_ediv_of_nonneg _ (by positivity)]
  push_cast
  rfl

end Shifts

section Powers

/-- A square to a power is its root to twice the power. -/
theorem square_pow
    (base : Int64)
    (exponent : Nat) :
    (base * base) ^ exponent = base ^ (2 * exponent) := by
  induction exponent with
  | zero => rfl
  | succ exponent inductionHypothesis =>
      rw [Int64.pow_succ, inductionHypothesis, Nat.mul_succ, Int64.pow_succ, Int64.pow_succ,
        Int64.mul_assoc]

/-- The power by halving the exponent is the power by repeated multiplication. -/
theorem integerPower_eq
    (base : Int64)
    (exponent : Nat) :
    integerPower base exponent = base ^ exponent := by
  induction base, exponent using integerPower.induct with
  | case1 base => simp [integerPower]
  | case2 base exponent nonzero even inductionHypothesis =>
      rw [integerPower, if_neg nonzero]
      simp only [inductionHypothesis, square_pow, if_pos even]
      rw [Nat.mul_div_cancel' (Nat.dvd_of_mod_eq_zero even)]
  | case3 base exponent nonzero odd inductionHypothesis =>
      rw [integerPower, if_neg nonzero]
      simp only [inductionHypothesis, square_pow, if_neg odd]
      rw [Int64.mul_comm, ← Int64.pow_succ, show 2 * (exponent / 2) + 1 = exponent by omega]

/-- A power of a 64-bit integer is the exact one, reduced to 64 bits. -/
theorem toInt_integerPower
    (base : Int64)
    (exponent : Nat) :
    (integerPower base exponent).toInt = (base.toInt ^ exponent).bmod (2 ^ 64) := by
  rw [integerPower_eq]
  induction exponent with
  | zero => rw [Int64.pow_zero, Int.pow_zero]; rfl
  | succ exponent inductionHypothesis =>
      rw [Int64.pow_succ, Int64.toInt_mul, inductionHypothesis, Int.bmod_mul_bmod, Int.pow_succ]

end Powers

namespace BinaryOp

variable {op : BinaryOp} {ty : Ty} {width : Nat} {left right : Int64}

/-- Truncating quotients are in range, but for the minimum divided by minus one. -/
theorem tdiv_inSigned
    {left right : Int}
    (inside : InSigned width left)
    (nonzero : right ≠ 0)
    (rest : ¬(left = -2 ^ (width - 1) ∧ right = -1)) :
    InSigned width (left.tdiv right) := by
  obtain ⟨low, high⟩ := inside
  have size : (left.tdiv right).natAbs = left.natAbs / right.natAbs := Int.natAbs_tdiv left right
  rcases (show right = 1 ∨ right = -1 ∨ 2 ≤ right.natAbs by omega) with rfl | rfl | large
  · rw [Int.tdiv_one]
    exact ⟨low, high⟩
  · rw [Int.tdiv_neg, Int.tdiv_one]
    exact ⟨by omega, by omega⟩
  · have half : left.natAbs / right.natAbs ≤ left.natAbs / 2 :=
      Nat.div_le_div_left large (by decide)
    exact ⟨by omega, by omega⟩

/-- A division leads to the truncating quotient, or the error of a zero divisor. -/
theorem div_exact
    (wrapsAt : ty.WrapsAt width)
    (inside : InSigned width left.toInt) :
    div.Exact width left.toInt right.toInt (div.onIntegers ty left right) := by
  have quotient := wrapsAt.toInt_wrap_eq (Int64.toInt_div left right)
  unfold onIntegers
  dsimp only
  split
  case isTrue zero =>
    exact .divZero (by rw [eq_of_beq zero]; rfl)
  case isFalse nonzero =>
    have divisor : right.toInt ≠ 0 := fun zero => nonzero (beq_iff_eq.mpr (Int64.toInt_inj.mp zero))
    by_cases minimum : left.toInt = -2 ^ (width - 1) ∧ right.toInt = -1
    · refine .divMinimum minimum.1 minimum.2 ?_
      rw [quotient, minimum.1, minimum.2]
      cases wrapsAt <;> rfl
    · refine .div divisor minimum ?_
      rw [quotient, (tdiv_inSigned inside divisor minimum).bmod_eq wrapsAt]

/-- Truncating remainders are in range. -/
theorem tmod_inSigned
    {left right : Int}
    (inside : InSigned width left) :
    InSigned width (left.tmod right) := by
  obtain ⟨low, high⟩ := inside
  have size : (left.tmod right).natAbs ≤ left.natAbs := by
    rw [Int.natAbs_tmod]
    exact Nat.mod_le _ _
  have sign : 0 ≤ left → 0 ≤ left.tmod right := Int.tmod_nonneg right
  have oppositeSign : left ≤ 0 → left.tmod right ≤ 0 := fun nonpositive => by
    have opposite := Int.tmod_nonneg right (show 0 ≤ -left by omega)
    rw [Int.neg_tmod] at opposite
    omega
  exact ⟨by omega, by omega⟩

/-- A remainder is the truncating one, or the error of a zero divisor. -/
theorem mod_exact
    (wrapsAt : ty.WrapsAt width)
    (inside : InSigned width left.toInt) :
    mod.Exact width left.toInt right.toInt (mod.onIntegers ty left right) := by
  unfold onIntegers
  dsimp only
  split
  case isTrue zero =>
    exact .modZero (by rw [eq_of_beq zero]; rfl)
  case isFalse nonzero =>
    refine .mod (fun zero => nonzero (beq_iff_eq.mpr (Int64.toInt_inj.mp zero))) ?_
    rw [wrapsAt.toInt_wrap, Int64.toInt_mod, (tmod_inSigned inside).bmod_eq wrapsAt]

/-- A power leads to the exact one, reduced, unless its exponent is out of range. -/
theorem pow_exact
    (wrapsAt : ty.WrapsAt width) :
    pow.Exact width left.toInt right.toInt (pow.onIntegers ty left right) := by
  have order : 0 ≤ right ↔ 0 ≤ right.toInt := Int64.le_iff_toInt_le
  unfold onIntegers
  dsimp only
  split
  case isTrue exponent =>
    simp only [Bool.and_eq_true, decide_eq_true_eq, order] at exponent
    exact .pow exponent.1 exponent.2 (wrapsAt.toInt_wrap_eq (toInt_integerPower left _))
  case isFalse exponent =>
    simp only [Bool.and_eq_true, decide_eq_true_eq, order] at exponent
    exact .roundedPow exponent (wrapsAt.wrap_inSigned _)

/-- A shift to the right is in range. -/
theorem fdiv_inSigned
    {content : Int}
    (inside : InSigned width content)
    (count : Nat) :
    InSigned width (content.fdiv (2 ^ count)) := by
  obtain ⟨low, high⟩ := inside
  have positive : (1 : Int) ≤ 2 ^ count := Int.pow_pos (by decide)
  have bound : (0 : Int) ≤ 2 ^ (width - 1) := by positivity
  rw [Int.fdiv_eq_ediv_of_nonneg _ (by omega)]
  refine ⟨(Int.le_ediv_iff_mul_le (by omega)).mpr ?_, Int.ediv_lt_of_lt_mul (by omega) ?_⟩
  · nlinarith only [low, positive, bound]
  · nlinarith only [high, positive, bound]

/-- The unsigned pattern that an unsigned shift starts from. -/
theorem unsigned_pattern
    (wrapsAt : ty.WrapsAt width)
    (content : Int64) :
    (if width = 64 then content.toUInt64 else content.toUInt64.toUInt32.toUInt64).toNat =
      (pattern width content.toInt).toNat := by
  rw [← wrapsAt.setWidth_toBitVec, BitVec.toNat_setWidth, Int64.toNat_toBitVec]
  cases wrapsAt with
  | int => rw [if_neg (by decide), UInt32.toNat_toUInt64, UInt64.toNat_toUInt32]
  | long => rw [if_pos rfl, Nat.mod_eq_of_lt content.toUInt64.toNat_lt]

/-- A truth value that says what a comparison asks for is its result. -/
theorem Exact.of_truth
    {left right : Int}
    {truth : Bool}
    {holds : Prop}
    [Decidable holds]
    (means : truth = true ↔ holds)
    (exact : op.Exact width left right (.ok (.bool (Decidable.decide holds)))) :
    op.Exact width left right (.ok (.bool truth)) := by
  rwa [Bool.eq_iff_iff.mpr (means.trans decide_eq_true_iff.symm)]

/-- An operator on integers leads to what it leads to over all integers. -/
theorem onIntegers_exact
    (wrapsAt : ty.WrapsAt width)
    (inside : InSigned width left.toInt) :
    op.Exact width left.toInt right.toInt (op.onIntegers ty left right) := by
  have bits : (ty.integerBits?).getD 64 = width := by rw [wrapsAt.integerBits]; rfl
  have small : (right.toInt % width).toNat < 64 := by
    cases wrapsAt <;> omega
  unfold onIntegers
  simp only [bits, wrapsAt.count_toInt]
  cases op
  case add => exact .add (wrapsAt.toInt_wrap_eq (Int64.toInt_add left right))
  case sub => exact .sub (wrapsAt.toInt_wrap_eq (Int64.toInt_sub left right))
  case mul => exact .mul (wrapsAt.toInt_wrap_eq (Int64.toInt_mul left right))
  case div => exact div_exact wrapsAt inside
  case mod => exact mod_exact wrapsAt inside
  case pow => exact pow_exact wrapsAt
  case shl => exact .shl (wrapsAt.toInt_wrap_eq (toInt_shiftLeft small))
  case shr =>
    refine .shr ?_
    rw [wrapsAt.toInt_wrap, toInt_shiftRight small, (fdiv_inSigned inside _).bmod_eq wrapsAt]
    rfl
  case ushr =>
    refine .ushr ?_
    rw [wrapsAt.toInt_wrap_eq (toInt_shiftRight_unsigned _ small), unsigned_pattern wrapsAt]
    rfl
  case bitAnd =>
    refine .bitAnd ?_
    rw [wrapsAt.toInt_wrap_setWidth, Int64.toBitVec_and, BitVec.setWidth_and,
      wrapsAt.setWidth_toBitVec, wrapsAt.setWidth_toBitVec]
  case bitOr =>
    refine .bitOr ?_
    rw [wrapsAt.toInt_wrap_setWidth, Int64.toBitVec_or, BitVec.setWidth_or,
      wrapsAt.setWidth_toBitVec, wrapsAt.setWidth_toBitVec]
  case bitXor =>
    refine .bitXor ?_
    rw [wrapsAt.toInt_wrap_setWidth, Int64.toBitVec_xor, BitVec.setWidth_xor,
      wrapsAt.setWidth_toBitVec, wrapsAt.setWidth_toBitVec]
  case eq => exact .of_truth (beq_iff_eq.trans compare_eq_iff_eq) .eq
  case ne => exact .of_truth (bne_iff_ne.trans compare_eq_iff_eq.not) .ne
  case lt => exact .of_truth (beq_iff_eq.trans compare_lt_iff_lt) .lt
  case le => exact .of_truth (bne_iff_ne.trans compare_le_iff_le) .le
  case gt => exact .of_truth (beq_iff_eq.trans compare_gt_iff_gt) .gt
  case ge => exact .of_truth (bne_iff_ne.trans compare_ge_iff_ge) .ge

/--
A binary operator on integers of type `int` or `long` leads to what it leads to
over all integers, reduced to the signed range of the type, and what it delivers
is an operand of that type again.
-/
theorem apply_exact
    (wrapsAt : ty.WrapsAt width)
    (inside : InSigned width left.toInt) :
    op.Exact width left.toInt right.toInt (op.apply ty (.int left) (.int right)) ∧
      ∀ result, op.apply ty (.int left) (.int right) = .ok (.int result) →
        InSigned width result.toInt := by
  have applied : op.apply ty (.int left) (.int right) = op.onIntegers ty left right := by
    cases wrapsAt <;> rfl
  rw [applied]
  refine ⟨onIntegers_exact wrapsAt inside, fun result delivered => ?_⟩
  cases comparison : op.isComparison with
  | false =>
      obtain ⟨content, same⟩ := onIntegers_wraps comparison delivered
      cases same
      exact wrapsAt.wrap_inSigned content
  | true =>
      have plain := onIntegers_ok wrapsAt.isInteger delivered
      rw [resultType, if_pos comparison] at plain
      exact absurd plain Bool.false_ne_true

/-- The least integer of 32 bits, divided by minus one and shifted by a negative count. -/
theorem apply_exact_minimum :
    let least : Int64 := -2147483648
    let count : Int64 := -4
    InSigned 32 least.toInt ∧
      div.apply .int (.int least) (.int (-1)) = .ok (.int least) ∧
      div.Exact 32 least.toInt (-1 : Int64).toInt (div.apply .int (.int least) (.int (-1))) ∧
      ushr.apply .int (.int least) (.int count) = .ok (.int 8) ∧
      ushr.Exact 32 least.toInt count.toInt (ushr.apply .int (.int least) (.int count)) := by
  intro least count
  have inside : InSigned 32 least.toInt := by
    unfold InSigned
    decide
  exact ⟨inside, by decide +kernel, (@apply_exact .div .int 32 least (-1) .int inside).1,
    by decide +kernel, (@apply_exact .ushr .int 32 least count .int inside).1⟩

end BinaryOp

end BotScript
