namespace BotScript

/-!
# Rounding of ratios

Exact rounding of a non-negative ratio of two natural numbers: to the nearest
integer, and to the nearest number with a bounded binary significand.  A tie
goes to the even neighbour.
-/

namespace Rounding

/-- The integer nearest to a ratio; a tie goes to the even neighbour. -/
def nearest (numerator denominator : Nat) : Nat :=
  let quotient := numerator / denominator
  let twice := 2 * (numerator % denominator)
  if twice < denominator then quotient
  else if denominator < twice then quotient + 1
  else if quotient % 2 = 0 then quotient
  else quotient + 1

/-- The integer nearest to a ratio times a power of two. -/
def nearestScaled (numerator denominator : Nat) (exponent : Int) : Nat :=
  if 0 ≤ exponent then nearest (numerator * Nat.pow 2 exponent.toNat) denominator
  else nearest numerator (denominator * Nat.pow 2 (-exponent).toNat)

/-- Whether a ratio is at least a power of two. -/
def reaches (numerator denominator : Nat) (exponent : Int) : Bool :=
  if 0 ≤ exponent then denominator * Nat.pow 2 exponent.toNat ≤ numerator
  else denominator ≤ numerator * Nat.pow 2 (-exponent).toNat

/-- The exponent of the largest power of two that a positive ratio reaches. -/
def magnitude (numerator denominator : Nat) : Int :=
  let estimate := (numerator.log2 : Int) - denominator.log2
  if reaches numerator denominator estimate then estimate else estimate - 1

/-- A binary format: the bits of a significand and the least exponent of its last bit. -/
structure BinaryFormat where
  precision : Nat
  leastExponent : Int
  deriving Repr, DecidableEq

/-- The format with 53 significant bits. -/
def doubleFormat : BinaryFormat :=
  ⟨53, -1074⟩

/-- The format with 24 significant bits. -/
def singleFormat : BinaryFormat :=
  ⟨24, -149⟩

/--
The number of a format that is nearest to a positive ratio, as a significand
and the exponent of its last bit, without a bound on large exponents.
-/
def toFormat (format : BinaryFormat) (numerator denominator : Nat) : Nat × Int :=
  let exponent :=
    max (magnitude numerator denominator - (format.precision - 1)) format.leastExponent
  (nearestScaled numerator denominator (-exponent), exponent)

end Rounding

end BotScript
