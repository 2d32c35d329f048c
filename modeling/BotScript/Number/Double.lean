import BotScript.Number.Rounding

namespace BotScript

/-!
# Double-precision numbers

A floating-point value is kept as its 64-bit pattern, so that two values are
equal exactly when their patterns are, and a snapshot keeps every bit.  A
finite pattern stands for a significand times a power of two; conversions are
exact roundings of that number.
-/

/-- A double-precision number given by its bit pattern. -/
structure Double where
  bits : UInt64
  deriving Repr, DecidableEq, Inhabited

namespace Double

/-- The pattern of zero. -/
def zero : Double :=
  ⟨0⟩

/-- The pattern that an invalid operation delivers. -/
def invalid : Double :=
  ⟨0xFFF8000000000000⟩

/-- The bits below the sign. -/
def absoluteBits (number : Double) : UInt64 :=
  number.bits &&& 0x7FFFFFFFFFFFFFFF

/-- Whether the sign bit is set. -/
def isNegative (number : Double) : Bool :=
  number.bits ≥ 0x8000000000000000

/-- Whether a pattern stands for no number. -/
def isNaN (number : Double) : Bool :=
  number.absoluteBits > 0x7FF0000000000000

/-- Whether a pattern stands for an infinity. -/
def isInfinite (number : Double) : Bool :=
  number.absoluteBits == 0x7FF0000000000000

/-- Whether a pattern stands for a zero of either sign. -/
def isZero (number : Double) : Bool :=
  number.absoluteBits == 0

/-- The pattern with the given sign and the given bits below it. -/
def withSign (negative : Bool) (absolute : UInt64) : Double :=
  ⟨if negative then absolute ||| 0x8000000000000000 else absolute⟩

/-- The infinity of the given sign. -/
def infinity (negative : Bool) : Double :=
  withSign negative 0x7FF0000000000000

/-- The bit in front of the fraction, which normal patterns leave out. -/
def hiddenBit : Nat :=
  0x10000000000000

/-- The significand of a finite pattern. -/
def significand (number : Double) : Nat :=
  let fraction := (number.bits &&& 0xFFFFFFFFFFFFF).toNat
  if number.absoluteBits >>> 52 == 0 then fraction else fraction + hiddenBit

/-- The exponent of the last bit of a finite pattern. -/
def exponent (number : Double) : Int :=
  let biased := (number.absoluteBits >>> 52).toNat
  if biased = 0 then -1074 else (biased : Int) - 1075

/-- The magnitude of a finite pattern as a ratio. -/
def ratio (number : Double) : Nat × Nat :=
  if 0 ≤ number.exponent then (number.significand * Nat.pow 2 number.exponent.toNat, 1)
  else (number.significand, Nat.pow 2 (-number.exponent).toNat)

/-- The pattern of a significand of at most 53 bits with the exponent of its last bit. -/
def pack (negative : Bool) (significand : Nat) (exponent : Int) : Double :=
  let absolute := (exponent + 1074).toNat * hiddenBit + significand
  if absolute < 0x7FF0000000000000 then withSign negative (UInt64.ofNat absolute)
  else infinity negative

/-- The number nearest to a ratio; a tie goes to the even significand. -/
def ofRatio (negative : Bool) (numerator denominator : Nat) : Double :=
  if numerator = 0 then withSign negative 0
  else
    let (significand, exponent) :=
      Rounding.toFormat Rounding.doubleFormat numerator denominator
    pack negative significand exponent

/-- The number nearest to a ratio among those of single precision. -/
def ofRatioSingle (negative : Bool) (numerator denominator : Nat) : Double :=
  if numerator = 0 then withSign negative 0
  else
    let (significand, exponent) :=
      Rounding.toFormat Rounding.singleFormat numerator denominator
    if Rounding.reaches significand 1 (128 - exponent) then infinity negative
    else if 0 ≤ exponent then ofRatio negative (significand * Nat.pow 2 exponent.toNat) 1
    else ofRatio negative significand (Nat.pow 2 (-exponent).toNat)

/-- The pattern of a quiet operand that is no number. -/
def quiet (number : Double) : Double :=
  ⟨number.bits ||| 0x0008000000000000⟩

/-- The number rounded to single precision. -/
def toSingle (number : Double) : Double :=
  if number.isNaN then ⟨number.quiet.bits &&& 0xFFFFFFFFE0000000⟩
  else if number.isInfinite then number
  else ofRatioSingle number.isNegative number.ratio.1 number.ratio.2

/-- The double nearest to an integer. -/
def ofInt64 (value : Int64) : Double :=
  ofRatio (value.toInt < 0) value.toInt.natAbs 1

/-- The single-precision number nearest to an integer. -/
def ofInt64Single (value : Int64) : Double :=
  if value == 0 then zero
  else ofRatioSingle (value.toInt < 0) value.toInt.natAbs 1

/-- An integer as a 64-bit word; integers out of range become the nearest word. -/
def saturate (value : Int) : Int64 :=
  if value < Int64.minValue.toInt then Int64.minValue
  else if Int64.maxValue.toInt < value then Int64.maxValue
  else Int64.ofInt value

/-- The integer part of a number, towards zero and bounded to 64 bits; no number gives zero. -/
def toInt64 (number : Double) : Int64 :=
  if number.isNaN then 0
  else if number.isInfinite then
    if number.isNegative then Int64.minValue else Int64.maxValue
  else
    let (numerator, denominator) := number.ratio
    let whole : Int := (numerator / denominator : Nat)
    saturate (if number.isNegative then -whole else whole)

/-- The number with its sign flipped. -/
def neg (number : Double) : Double :=
  ⟨number.bits ^^^ 0x8000000000000000⟩

/-- The machine number of a pattern. -/
def toFloat (number : Double) : Float :=
  Float.ofBits number.bits

/-- The pattern of a machine number. -/
def ofFloat (number : Float) : Double :=
  if number.isNaN then invalid else ⟨number.toBits⟩

/-- Apply an operation; an operand that is no number passes through it. -/
def lift (operation : Float → Float → Float) (left right : Double) : Double :=
  if left.isNaN then left.quiet
  else if right.isNaN then right.quiet
  else ofFloat (operation left.toFloat right.toFloat)

/-- The rounded sum. -/
def add (left right : Double) : Double :=
  lift (· + ·) left right

/-- The rounded difference. -/
def sub (left right : Double) : Double :=
  lift (· - ·) left right

/-- The rounded product. -/
def mul (left right : Double) : Double :=
  lift (· * ·) left right

/-- The rounded quotient. -/
def div (left right : Double) : Double :=
  lift (· / ·) left right

/-- The power of a number; a base of one and an exponent of zero give one. -/
def pow (left right : Double) : Double :=
  let power := Float.pow left.toFloat right.toFloat
  if power.isNaN then lift (fun _ _ => power) left right else ofFloat power

/-- The remainder of the truncated quotient, with the sign of the dividend. -/
def rem (left right : Double) : Double :=
  if left.isNaN then left.quiet
  else if right.isNaN then right.quiet
  else if left.isInfinite || right.isZero then invalid
  else if right.isInfinite then left
  else
    let (leftNumerator, leftDenominator) := left.ratio
    let (rightNumerator, rightDenominator) := right.ratio
    ofRatio left.isNegative
      ((leftNumerator * rightDenominator) % (rightNumerator * leftDenominator))
      (leftDenominator * rightDenominator)

/-- An integer that orders the numbers as their values do. -/
def orderKey (number : Double) : Int :=
  if number.isNegative then -(number.absoluteBits.toNat : Int) else number.absoluteBits.toNat

/-- The order of two numbers, if both are numbers. -/
def compare? (left right : Double) : Option Ordering :=
  if left.isNaN || right.isNaN then none
  else some (compare left.orderKey right.orderKey)

/-- Whether two patterns stand for the same number. -/
def equals (left right : Double) : Bool :=
  left.compare? right == some .eq

end Double

end BotScript
