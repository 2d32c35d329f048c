import BotScript.Literal
import Mathlib.Data.Nat.Digits.Lemmas

namespace BotScript

/-!
# Numerals

A numeral is a row of digits of a base, the highest place first.  Reading digits
succeeds exactly on numerals and gives their value.
-/

/-- A digit of a base with its value; letters of either case stand for the values from ten on. -/
def IsDigitOf (base : Nat) (character : Char) (value : Nat) : Prop :=
  value < base ∧
    ("0123456789abcdef".toList[value]? = some character ∨
      "0123456789ABCDEF".toList[value]? = some character)

/-- A row of digits of a base with its value, the highest place first. -/
def Numeral (base : Nat) (digits : List Char) (value : Nat) : Prop :=
  ∃ places, List.Forall₂ (IsDigitOf base) digits places ∧ value = Nat.ofDigits base places.reverse

namespace Literal

variable {base value start : Nat} {character : Char} {digits : List Char}

/-! ## Digits -/

/-- A character between two others is told by its distance from the first one. -/
theorem eq_ofNat_of_le
    (count : Nat)
    {first last : Char}
    (fits : last.toNat < first.toNat + count)
    (isBehind : first ≤ character)
    (isBefore : character ≤ last) :
    ∃ place < count,
      character = Char.ofNat (first.toNat + place) ∧ character.toNat - first.toNat = place := by
  have isBehind : first.toNat ≤ character.toNat := UInt32.le_iff_toNat_le.mp isBehind
  have isBefore : character.toNat ≤ last.toNat := UInt32.le_iff_toNat_le.mp isBefore
  refine ⟨character.toNat - first.toNat, by omega, ?_, rfl⟩
  rw [Nat.add_sub_cancel' isBehind, Char.ofNat_toNat]

/-- The characters from `0` to `9`. -/
theorem between_of_isDigit
    (isDigit : character.isDigit = true) :
    '0' ≤ character ∧ character ≤ '9' := by
  simp only [Char.isDigit, Bool.and_eq_true, decide_eq_true_eq] at isDigit
  exact isDigit

/-- A character has a value exactly if it is a digit of the base with that value. -/
theorem digitValue?_eq_some_iff
    (small : base ≤ 16) :
    digitValue? base character = some value ↔ IsDigitOf base character value := by
  constructor
  · intro isValue
    obtain ⟨isValue, less⟩ := Option.filter_eq_some_iff.mp isValue
    refine ⟨by simpa using less, ?_⟩
    split at isValue
    case isTrue isDigit =>
      obtain ⟨isBehind, isBefore⟩ := between_of_isDigit isDigit
      obtain ⟨place, bound, rfl, distance⟩ := eq_ofNat_of_le 10 (by decide) isBehind isBefore
      rw [distance] at isValue
      obtain rfl := Option.some.inj isValue
      left
      interval_cases place <;> rfl
    case isFalse =>
      split at isValue
      case isTrue isSmall =>
        simp only [Bool.and_eq_true, decide_eq_true_eq] at isSmall
        obtain ⟨place, bound, rfl, distance⟩ := eq_ofNat_of_le 6 (by decide) isSmall.1 isSmall.2
        rw [distance] at isValue
        obtain rfl := Option.some.inj isValue
        left
        interval_cases place <;> rfl
      case isFalse =>
        split at isValue
        case isTrue isCapital =>
          simp only [Bool.and_eq_true, decide_eq_true_eq] at isCapital
          obtain ⟨place, bound, rfl, distance⟩ :=
            eq_ofNat_of_le 6 (by decide) isCapital.1 isCapital.2
          rw [distance] at isValue
          obtain rfl := Option.some.inj isValue
          right
          interval_cases place <;> rfl
        case isFalse => cases isValue
  · rintro ⟨less, isDigit⟩
    refine Option.filter_eq_some_iff.mpr ⟨?_, by simpa using less⟩
    have bound : value < 16 := by omega
    clear less small
    interval_cases value <;> simp at isDigit <;> rcases isDigit with rfl | rfl <;> rfl

/-- Decimal digits. -/
theorem isDigit_iff : character.isDigit = true ↔ ∃ value, IsDigitOf 10 character value := by
  constructor
  · intro isDigit
    obtain ⟨isBehind, isBefore⟩ := between_of_isDigit isDigit
    obtain ⟨place, bound, rfl, -⟩ := eq_ofNat_of_le 10 (by decide) isBehind isBefore
    refine ⟨place, bound, ?_⟩
    left
    interval_cases place <;> rfl
  · rintro ⟨value, less, isDigit⟩
    interval_cases value <;> simp at isDigit <;> subst isDigit <;> rfl

/-- Hexadecimal digits. -/
theorem isHexDigit_iff :
    Scan.isHexDigit character = true ↔ ∃ value, IsDigitOf 16 character value := by
  constructor
  · intro isDigit
    simp only [Scan.isHexDigit, Bool.or_eq_true, Bool.and_eq_true, decide_eq_true_eq] at isDigit
    rcases isDigit with (isDigit | isSmall) | isCapital
    · obtain ⟨value, less, isDigit⟩ := isDigit_iff.mp isDigit
      exact ⟨value, Nat.lt_trans less (by decide), isDigit⟩
    · obtain ⟨place, bound, rfl, -⟩ := eq_ofNat_of_le 6 (by decide) isSmall.1 isSmall.2
      refine ⟨10 + place, by omega, .inl ?_⟩
      interval_cases place <;> rfl
    · obtain ⟨place, bound, rfl, -⟩ := eq_ofNat_of_le 6 (by decide) isCapital.1 isCapital.2
      refine ⟨10 + place, by omega, .inr ?_⟩
      interval_cases place <;> rfl
  · rintro ⟨value, less, isDigit⟩
    interval_cases value <;> simp at isDigit <;> rcases isDigit with rfl | rfl <;> rfl

/-- Octal digits. -/
theorem isOctalDigit_iff :
    Scan.isOctalDigit character = true ↔ ∃ value, IsDigitOf 8 character value := by
  constructor
  · intro isDigit
    simp only [Scan.isOctalDigit, Bool.and_eq_true, decide_eq_true_eq] at isDigit
    obtain ⟨place, bound, rfl, -⟩ := eq_ofNat_of_le 8 (by decide) isDigit.1 isDigit.2
    refine ⟨place, bound, ?_⟩
    left
    interval_cases place <;> rfl
  · rintro ⟨value, less, isDigit⟩
    interval_cases value <;> simp at isDigit <;> subst isDigit <;> rfl

/-- An octal digit is a hexadecimal one. -/
theorem isHexDigit_of_isOctalDigit
    (isDigit : Scan.isOctalDigit character = true) :
    Scan.isHexDigit character = true := by
  obtain ⟨place, less, isDigit⟩ := isOctalDigit_iff.mp isDigit
  exact isHexDigit_iff.mpr ⟨place, Nat.lt_trans less (by decide), isDigit⟩

/-- Binary digits. -/
theorem isBinaryDigit_iff :
    Scan.isBinaryDigit character = true ↔ ∃ value, IsDigitOf 2 character value := by
  constructor
  · intro isDigit
    simp only [Scan.isBinaryDigit, Bool.or_eq_true, beq_iff_eq] at isDigit
    rcases isDigit with rfl | rfl
    · exact ⟨0, by decide, .inl rfl⟩
    · exact ⟨1, by decide, .inl rfl⟩
  · rintro ⟨value, less, isDigit⟩
    interval_cases value <;> simp at isDigit <;> subst isDigit <;> rfl

/-! ## Rows of digits -/

/-- A row without digits has the value zero. -/
theorem numeral_nil : Numeral base [] value ↔ value = 0 := by
  constructor
  · rintro ⟨places, all, rfl⟩
    cases all
    rfl
  · rintro rfl
    exact ⟨[], .nil, rfl⟩

/-- A row of digits with one more digit in front. -/
theorem numeral_cons :
    Numeral base (character :: digits) value ↔
      ∃ place low, IsDigitOf base character place ∧ Numeral base digits low ∧
        value = place * base ^ digits.length + low := by
  constructor
  · rintro ⟨places, all, rfl⟩
    cases all with
    | @cons _ place _ places isDigit rest =>
        refine ⟨place, _, isDigit, ⟨places, rest, rfl⟩, ?_⟩
        rw [List.reverse_cons, Nat.ofDigits_append, Nat.ofDigits_singleton, List.length_reverse,
          rest.length_eq]
        ring
  · rintro ⟨place, _, isDigit, ⟨places, rest, rfl⟩, rfl⟩
    refine ⟨place :: places, .cons isDigit rest, ?_⟩
    rw [List.reverse_cons, Nat.ofDigits_append, Nat.ofDigits_singleton, List.length_reverse,
      rest.length_eq]
    ring

/-- Digits are read one place after the other. -/
theorem digitsFrom?_eq_some_iff
    (small : base ≤ 16) :
    digitsFrom? base start digits = some value ↔
      ∃ low, Numeral base digits low ∧ value = start * base ^ digits.length + low := by
  induction digits generalizing start with
  | nil => simp [digitsFrom?, numeral_nil, eq_comm]
  | cons first digits inductionHypothesis =>
      have further (place low : Nat) :
          (start * base + place) * base ^ digits.length + low =
            start * base ^ (first :: digits).length + (place * base ^ digits.length + low) := by
        rw [List.length_cons, Nat.pow_succ]
        ring
      rw [digitsFrom?]
      cases isValue : digitValue? base first with
      | none =>
          simp only [reduceCtorEq, false_iff]
          rintro ⟨_, isNumeral, -⟩
          obtain ⟨place, -, isDigit, -⟩ := numeral_cons.mp isNumeral
          rw [(digitValue?_eq_some_iff small).mpr isDigit] at isValue
          cases isValue
      | some place =>
          have isDigit := (digitValue?_eq_some_iff small).mp isValue
          simp only [inductionHypothesis]
          constructor
          · rintro ⟨low, rest, rfl⟩
            exact ⟨_, numeral_cons.mpr ⟨place, low, isDigit, rest, rfl⟩, further place low⟩
          · rintro ⟨_, isNumeral, rfl⟩
            obtain ⟨other, low, isOther, rest, rfl⟩ := numeral_cons.mp isNumeral
            rw [(digitValue?_eq_some_iff small).mpr isOther] at isValue
            obtain rfl := Option.some.inj isValue
            exact ⟨low, rest, (further other low).symm⟩

/-- Digits are read from the start exactly if they are a numeral. -/
theorem digitsFrom?_zero
    (small : base ≤ 16) :
    digitsFrom? base 0 digits = some value ↔ Numeral base digits value := by
  simp [digitsFrom?_eq_some_iff small]

/-- Every number below a power of the base has a row of that many digits. -/
theorem exists_numeral
    (large : 1 < base)
    (small : base ≤ 16)
    {count : Nat}
    (fits : value < base ^ count) :
    ∃ digits, digits.length = count ∧ Numeral base digits value := by
  induction count generalizing value with
  | zero => exact ⟨[], rfl, numeral_nil.mpr (by simpa using fits)⟩
  | succ count inductionHypothesis =>
      have positive : 0 < base ^ count := Nat.pow_pos (Nat.zero_lt_of_lt large)
      obtain ⟨digits, length, rest⟩ := inductionHypothesis (Nat.mod_lt value positive)
      have isPlace : value / base ^ count < base := by
        rw [Nat.div_lt_iff_lt_mul positive, ← Nat.pow_succ']
        exact fits
      obtain ⟨digit, isDigit⟩ : ∃ digit, IsDigitOf base digit (value / base ^ count) := by
        have inside : value / base ^ count < "0123456789abcdef".toList.length :=
          Nat.lt_of_lt_of_le isPlace small
        exact ⟨_, isPlace, .inl (List.getElem?_eq_getElem inside)⟩
      refine ⟨digit :: digits, by rw [List.length_cons, length], ?_⟩
      refine numeral_cons.mpr ⟨_, _, isDigit, rest, ?_⟩
      rw [length, Nat.mul_comm, Nat.div_add_mod]

/-- A numeral consists of digits. -/
theorem exists_place
    (isNumeral : Numeral base digits value) :
    ∀ digit ∈ digits, ∃ place, IsDigitOf base digit place := by
  induction digits generalizing value with
  | nil => simp
  | cons first digits inductionHypothesis =>
      obtain ⟨place, low, isDigit, rest, -⟩ := numeral_cons.mp isNumeral
      exact List.forall_mem_cons.mpr ⟨⟨place, isDigit⟩, inductionHypothesis rest⟩

/-- Every row of digits has a value. -/
theorem exists_value
    (all : ∀ digit ∈ digits, ∃ place, IsDigitOf base digit place) :
    ∃ value, Numeral base digits value := by
  induction digits with
  | nil => exact ⟨0, numeral_nil.mpr rfl⟩
  | cons first digits inductionHypothesis =>
      obtain ⟨place, isDigit⟩ := all first List.mem_cons_self
      obtain ⟨low, rest⟩ := inductionHypothesis fun digit isThere =>
        all digit (List.mem_cons_of_mem _ isThere)
      exact ⟨_, numeral_cons.mpr ⟨place, low, isDigit, rest, rfl⟩⟩

end Literal

end BotScript
