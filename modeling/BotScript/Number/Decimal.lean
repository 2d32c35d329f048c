import BotScript.Number.Double

namespace BotScript

/-!
# Decimal numbers

Reading of decimal numerals with an optional sign, fraction and exponent, and
the text of a number with six significant digits.
-/

/-- The decimal number `± digits · 10 ^ exponent`. -/
structure Decimal where
  negative : Bool
  digits : Nat
  exponent : Int
  deriving Repr, DecidableEq, Inhabited

namespace Decimal

/-- The value of a list of decimal digits. -/
def digitsValue (digits : List Char) : Nat :=
  digits.foldl (fun value digit => value * 10 + (digit.toNat - '0'.toNat)) 0

/-- The exponent at the start of a text, with the text behind it; none is zero. -/
def readExponent : List Char → Int × List Char
  | mark :: rest =>
      if mark == 'e' || mark == 'E' then
        let (negative, behind) :=
          match rest with
          | '-' :: more => (true, more)
          | '+' :: more => (false, more)
          | more => (false, more)
        let digits := behind.takeWhile Char.isDigit
        let value : Int := digitsValue digits
        if digits.isEmpty then (0, mark :: rest)
        else (if negative then -value else value, behind.dropWhile Char.isDigit)
      else (0, mark :: rest)
  | [] => (0, [])

/--
The longest decimal numeral at the start of a text, with the text behind it.
A numeral needs a digit before or behind its point, and an exponent needs a
digit as well.
-/
def readLeading? (text : List Char) : Option (Decimal × List Char) :=
  let (negative, unsigned) :=
    match text with
    | '-' :: rest => (true, rest)
    | '+' :: rest => (false, rest)
    | rest => (false, rest)
  let whole := unsigned.takeWhile Char.isDigit
  let behindWhole := unsigned.dropWhile Char.isDigit
  let (fraction, behindFraction) :=
    match behindWhole with
    | '.' :: rest => (rest.takeWhile Char.isDigit, rest.dropWhile Char.isDigit)
    | rest => ([], rest)
  if whole.isEmpty && fraction.isEmpty then none
  else
    let (exponent, rest) := readExponent behindFraction
    some (⟨negative, digitsValue (whole ++ fraction), exponent - fraction.length⟩, rest)

/-- The decimal numeral that is a whole text. -/
def read? (text : List Char) : Option Decimal :=
  match readLeading? text with
  | some (decimal, []) => some decimal
  | _ => none

/--
The double nearest to a decimal number.  Beyond the powers `10 ^ 400` and
`10 ^ -400` the answer is an infinity or zero, whatever the digits are.
-/
def toDouble (decimal : Decimal) : Double :=
  let size : Int := (Nat.toDigits 10 decimal.digits).length
  if decimal.digits = 0 || decimal.exponent + size < -400 then
    Double.withSign decimal.negative 0
  else if 400 < decimal.exponent + size then Double.infinity decimal.negative
  else if 0 ≤ decimal.exponent then
    Double.ofRatio decimal.negative (decimal.digits * Nat.pow 10 decimal.exponent.toNat) 1
  else
    Double.ofRatio decimal.negative decimal.digits (Nat.pow 10 (-decimal.exponent).toNat)

end Decimal

namespace Double

/-- The integer nearest to a ratio times a power of ten. -/
def nearestTenfold (numerator denominator : Nat) (power : Int) : Nat :=
  if 0 ≤ power then Rounding.nearest (numerator * Nat.pow 10 power.toNat) denominator
  else Rounding.nearest numerator (denominator * Nat.pow 10 (-power).toNat)

/-- Whether a ratio is at least a power of ten. -/
def reachesTenfold (numerator denominator : Nat) (power : Int) : Bool :=
  if 0 ≤ power then denominator * Nat.pow 10 power.toNat ≤ numerator
  else denominator ≤ numerator * Nat.pow 10 (-power).toNat

/-- The largest power of ten that a positive ratio reaches, found among the exponents of doubles. -/
def decimalExponent (numerator denominator : Nat) : Int :=
  let estimate := ((numerator.log2 : Int) - denominator.log2) * 30103 / 100000
  if reachesTenfold numerator denominator (estimate + 1) then estimate + 1
  else if reachesTenfold numerator denominator estimate then estimate
  else estimate - 1

/-- The six leading digits of a positive finite number, rounded, and its decimal exponent. -/
def sixDigits (number : Double) : Nat × Int :=
  let (numerator, denominator) := number.ratio
  let exponent := decimalExponent numerator denominator
  let digits := nearestTenfold numerator denominator (5 - exponent)
  if digits = 1000000 then (100000, exponent + 1) else (digits, exponent)

/-- Drop the zeros at the end of a list of digits. -/
def dropTrailingZeros (digits : List Char) : List Char :=
  (digits.reverse.dropWhile (· == '0')).reverse

/-- Join the digits before and behind the point; the point goes if nothing is behind it. -/
def joinFraction (whole fraction : List Char) : List Char :=
  let kept := dropTrailingZeros fraction
  if kept.isEmpty then whole else whole ++ '.' :: kept

/-- The digits of an exponent, at least two of them. -/
def exponentDigits (exponent : Nat) : List Char :=
  let digits := Nat.toDigits 10 exponent
  if digits.length < 2 then '0' :: digits else digits

/--
The text of a number with six significant digits and without trailing zeros.
Numbers below `10 ^ -4` and from `10 ^ 6` on are written with an exponent.
-/
def text (number : Double) : String :=
  if number.isNaN then "nan"
  else if number.isInfinite then if number.isNegative then "-inf" else "inf"
  else if number.isZero then if number.isNegative then "-0" else "0"
  else
    let (value, exponent) := number.sixDigits
    let digits := Nat.toDigits 10 value
    let body :=
      if exponent < -4 || 6 ≤ exponent then
        joinFraction (digits.take 1) (digits.drop 1)
          ++ 'e' :: (if exponent < 0 then '-' else '+') :: exponentDigits exponent.natAbs
      else if 0 ≤ exponent then
        joinFraction (digits.take (exponent.toNat + 1)) (digits.drop (exponent.toNat + 1))
      else
        joinFraction ['0'] (List.replicate (exponent.natAbs - 1) '0' ++ digits)
    String.ofList (if number.isNegative then '-' :: body else body)

end Double

end BotScript
