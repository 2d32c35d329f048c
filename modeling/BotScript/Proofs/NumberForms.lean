import BotScript.Proofs.Numerals
import BotScript.Proofs.StableScans
import BotScript.Proofs.LexicalGrammar
import Mathlib.Algebra.Order.Field.Rat
import Mathlib.Tactic.FieldSimp

namespace BotScript

/-!
# Forms of numbers

A number is a zero with the mark and the digits of a base, or a decimal number
with an optional fraction and an optional exponent.  It is scanned as far as
these forms reach.
-/

/-! ## Forms -/

/-- The letters behind a zero that mark a base. -/
inductive BaseMark : Nat → Char → Prop where
  | hexadecimal : BaseMark 16 'x'
  | capitalHexadecimal : BaseMark 16 'X'
  | binary : BaseMark 2 'b'
  | capitalBinary : BaseMark 2 'B'

/-- The part of a decimal number behind its point, which may be left out. -/
inductive Fraction : List Char → ℚ → Prop where
  | none : Fraction [] 0
  | digits {digits : List Char} {value : Nat} :
      digits ≠ [] → Numeral 10 digits value →
      Fraction ('.' :: digits) (value / 10 ^ digits.length)

/-- The sign of an exponent, which may be left out. -/
inductive ExponentSign : List Char → Int → Prop where
  | none : ExponentSign [] 1
  | plus : ExponentSign ['+'] 1
  | minus : ExponentSign ['-'] (-1)

/-- The exponent of a decimal number, which may be left out. -/
inductive Exponent : List Char → Int → Prop where
  | none : Exponent [] 0
  | digits {mark : Char} {sign digits : List Char} {factor : Int} {value : Nat} :
      mark = 'e' ∨ mark = 'E' → ExponentSign sign factor →
      digits ≠ [] → Numeral 10 digits value →
      Exponent (mark :: (sign ++ digits)) (factor * value)

/-- What a number stands for. -/
inductive NumberMeaning where
  /-- A base without digits stands for nothing. -/
  | nothing
  /-- The digits of a base stand for a pattern of bits. -/
  | pattern (value : Nat)
  | integer (value : Nat)
  | decimal (value : ℚ)

/-- The forms of numbers with what they stand for. -/
inductive NumberForm : List Char → NumberMeaning → Prop where
  | noDigits {base : Nat} {mark : Char} : BaseMark base mark → NumberForm ['0', mark] .nothing
  | based {base value : Nat} {mark : Char} {digits : List Char} :
      BaseMark base mark → digits ≠ [] → Numeral base digits value →
      NumberForm ('0' :: mark :: digits) (.pattern value)
  | integer {digits : List Char} {value : Nat} :
      digits ≠ [] → Numeral 10 digits value → NumberForm digits (.integer value)
  | decimal {whole fraction exponent : List Char} {value : Nat} {part : ℚ} {power : Int} :
      whole ≠ [] → Numeral 10 whole value → Fraction fraction part → Exponent exponent power →
      fraction ++ exponent ≠ [] →
      NumberForm (whole ++ fraction ++ exponent) (.decimal ((value + part) * 10 ^ power))

/-- The longest part of a text from its start on that has a form. -/
structure IsLongestPrefix (form : List Char → Prop) (text part : List Char) : Prop where
  starts : part <+: text
  isForm : form part
  longest : ∀ other, other <+: text → form other → other.length ≤ part.length

namespace Scan

/-! ## Greedy scans -/

/--
A scan that takes the longest part of every text that has a form.  Where a
shorter part ends, a character stands that the form goes on with.
-/
structure Greedy
    (form : List Char → Prop) (length : List Char → Nat) (goesOn : Char → Prop) : Prop where
  takes : ∀ text : List Char, form (text.take (length text))
  longest : ∀ part rest : List Char, form part → part.length ≤ length (part ++ rest)
  next :
    ∀ part rest : List Char, form part → part.length < length (part ++ rest) →
      ∃ first more, rest = first :: more ∧ goesOn first

variable {form latterForm : List Char → Prop} {length latterLength : List Char → Nat}
  {goesOn latterGoesOn : Char → Prop}

/-- Where a former scan goes on, there is no latter part. -/
theorem Greedy.latter_eq_nil
    (former : Greedy form length goesOn)
    (apart : ∀ first part, latterForm (first :: part) → ¬goesOn first)
    {start stop rest : List Char}
    (isStart : form start)
    (isStop : latterForm stop)
    (less : start.length < length (start ++ (stop ++ rest))) :
    stop = [] := by
  obtain ⟨first, more, starts, isNext⟩ := former.next start _ isStart less
  cases stop with
  | nil => rfl
  | cons other stop =>
      obtain ⟨rfl, -⟩ := List.cons.inj starts
      exact absurd isNext (apart other stop isStop)

/-- A greedy scan takes the longest part. -/
theorem Greedy.isLongestPrefix
    (greedy : Greedy form length goesOn)
    (text : List Char) :
    IsLongestPrefix form text (text.take (length text)) where
  starts := List.take_prefix _ _
  isForm := greedy.takes text
  longest := by
    rintro other ⟨rest, rfl⟩ isForm
    rw [List.length_take]
    exact Nat.le_min.mpr ⟨greedy.longest other rest isForm, by simp⟩

/-- A form may be said in another way. -/
theorem Greedy.congr
    (greedy : Greedy form length goesOn)
    (same : ∀ part, form part ↔ latterForm part) :
    Greedy latterForm length goesOn := by
  obtain rfl : form = latterForm := funext fun part => propext (same part)
  exact greedy

/-- Two scans, one behind the other, if no latter part starts as a former one goes on. -/
theorem Greedy.sequence
    (former : Greedy form length goesOn)
    (latter : Greedy latterForm latterLength latterGoesOn)
    (apart : ∀ first part, latterForm (first :: part) → ¬goesOn first) :
    Greedy (fun part => ∃ start stop, part = start ++ stop ∧ form start ∧ latterForm stop)
      (fun text => length text + latterLength (text.drop (length text)))
      (fun character => goesOn character ∨ latterGoesOn character) where
  takes := by
    intro text
    exact ⟨_, _, List.take_add, former.takes text, latter.takes (text.drop (length text))⟩
  longest := by
    rintro _ rest ⟨start, stop, rfl, isStart, isStop⟩
    rw [List.append_assoc, List.length_append]
    rcases Nat.lt_or_eq_of_le (former.longest start (stop ++ rest) isStart) with less | same
    · obtain rfl := former.latter_eq_nil apart isStart isStop less
      rw [List.length_nil]
      omega
    · have further := latter.longest stop rest isStop
      rw [← same, List.drop_left]
      omega
  next := by
    rintro _ rest ⟨start, stop, rfl, isStart, isStop⟩ short
    rw [List.append_assoc, List.length_append] at short
    rcases Nat.lt_or_eq_of_le (former.longest start (stop ++ rest) isStart) with less | same
    · obtain rfl := former.latter_eq_nil apart isStart isStop less
      obtain ⟨first, more, starts, isNext⟩ := former.next start rest isStart less
      exact ⟨first, more, starts, .inl isNext⟩
    · rw [← same, List.drop_left] at short
      obtain ⟨first, more, starts, isNext⟩ := latter.next stop rest isStop (by omega)
      exact ⟨first, more, starts, .inr isNext⟩

/-- A run of characters that pass a test. -/
theorem Greedy.run
    (test : Char → Bool) :
    Greedy (fun part => ∀ character ∈ part, test character = true) (runLength test)
      (fun character => test character = true) where
  takes := take_runLength test
  longest := by
    intro part rest all
    rw [runLength, List.takeWhile_append_of_pos all, List.length_append]
    exact Nat.le_add_right _ _
  next := by
    intro part rest all short
    rw [runLength, List.takeWhile_append_of_pos all, List.length_append] at short
    cases rest with
    | nil => simp at short
    | cons first more =>
        refine ⟨first, more, rfl, ?_⟩
        cases passes : test first with
        | true => rfl
        | false => simp [passes] at short

/-! ## Parts of decimal numbers -/

variable {digits : List Char} {value : Nat}

/-- A numeral consists of digits. -/
theorem isDigit_of_numeral
    (isNumeral : Numeral 10 digits value) :
    ∀ digit ∈ digits, digit.isDigit = true := fun digit isThere =>
  Literal.isDigit_iff.mpr (Literal.exists_place isNumeral digit isThere)

/-- Digits are a numeral. -/
theorem numeral_of_isDigit
    (all : ∀ digit ∈ digits, digit.isDigit = true) :
    ∃ value, Numeral 10 digits value :=
  Literal.exists_value fun digit isThere => Literal.isDigit_iff.mp (all digit isThere)

/-- Digits behind marks are none, or a numeral. -/
theorem take_digitsBehind
    (marks : Nat)
    (text : List Char) :
    digitsBehind marks text = 0 ∨
      ∃ digits value, digits ≠ [] ∧ Numeral 10 digits value ∧
        digitsBehind marks text = marks + digits.length ∧ text.take digits.length = digits := by
  unfold digitsBehind
  split
  case isTrue => exact .inl rfl
  case isFalse some =>
    obtain ⟨value, isNumeral⟩ := numeral_of_isDigit (take_runLength Char.isDigit text)
    have length : (text.take (runLength Char.isDigit text)).length = runLength Char.isDigit text :=
      List.length_take_of_le (runLength_le _ _)
    refine .inr ⟨_, value, ?_, isNumeral, ?_, ?_⟩
    · exact fun isNil => some (by rw [← length, isNil, List.length_nil])
    · rw [length]
    · rw [length]

/-- Digits behind marks are all of the digits there. -/
theorem digitsBehind_append
    (marks : Nat)
    (isThere : digits ≠ [])
    (isNumeral : Numeral 10 digits value)
    (rest : List Char) :
    digitsBehind marks (digits ++ rest) = marks + digits.length + runLength Char.isDigit rest := by
  have length : runLength Char.isDigit (digits ++ rest) =
      digits.length + runLength Char.isDigit rest := by
    rw [runLength, List.takeWhile_append_of_pos (isDigit_of_numeral isNumeral), List.length_append]
    rfl
  have positive := List.length_pos_of_ne_nil isThere
  unfold digitsBehind
  rw [length, if_neg (by omega), Nat.add_assoc]

/-- A scan that goes on with digits behind a mark takes the mark with them, or nothing. -/
theorem Greedy.behindMark
    {isMark : Char → Bool}
    {further : List Char → Nat}
    (empty : length [] = 0)
    (cons : ∀ first text, length (first :: text) = if isMark first then further text else 0)
    (taken : ∀ text, further text = 0 ∨
      ∃ part, form part ∧ further text = 1 + part.length ∧ text.take part.length = part)
    (append : ∀ part rest, form part →
      further (part ++ rest) = 1 + part.length + runLength Char.isDigit rest) :
    Greedy
      (fun part => part = [] ∨
        ∃ mark behind, part = mark :: behind ∧ isMark mark = true ∧ form behind)
      length (fun character => isMark character = true ∨ character.isDigit = true) where
  takes := by
    intro text
    cases text with
    | nil => exact .inl List.take_nil
    | cons first text =>
        rw [cons]
        split
        case isTrue isMark =>
          rcases taken text with none | ⟨part, isPart, length, taken⟩
          · exact .inl (by rw [none, List.take_zero])
          · rw [length, Nat.add_comm 1, List.take_succ_cons, taken]
            exact .inr ⟨first, part, rfl, isMark, isPart⟩
        case isFalse => exact .inl List.take_zero
  longest := by
    rintro _ rest (rfl | ⟨mark, behind, rfl, isMark, isPart⟩)
    · exact Nat.zero_le _
    · rw [List.cons_append, cons, if_pos isMark, append behind rest isPart, List.length_cons]
      omega
  next := by
    rintro _ rest (rfl | ⟨mark, behind, rfl, isMark, isPart⟩) short
    · cases rest with
      | nil =>
          rw [List.append_nil, empty] at short
          cases short
      | cons first more =>
          rw [List.nil_append, cons] at short
          split at short
          case isTrue isMark => exact ⟨first, more, rfl, .inl isMark⟩
          case isFalse => cases short
    · rw [List.cons_append, cons, if_pos isMark, append behind rest isPart,
        List.length_cons] at short
      obtain ⟨first, more, rfl, isDigit⟩ := (Greedy.run Char.isDigit).next [] rest (by simp)
        (show 0 < runLength Char.isDigit rest by omega)
      exact ⟨first, more, rfl, .inr isDigit⟩

/-- A fraction is nothing, or a point with digits behind it. -/
theorem fraction_iff
    {part : List Char} :
    (part = [] ∨ ∃ mark behind, part = mark :: behind ∧ (mark == '.') = true ∧
      behind ≠ [] ∧ ∃ value, Numeral 10 behind value) ↔ ∃ value, Fraction part value := by
  constructor
  · rintro (rfl | ⟨mark, digits, rfl, isPoint, isThere, value, isNumeral⟩)
    · exact ⟨0, .none⟩
    · rw [beq_iff_eq.mp isPoint]
      exact ⟨_, .digits isThere isNumeral⟩
  · rintro ⟨_, isFraction⟩
    cases isFraction with
    | none => exact .inl rfl
    | digits isThere isNumeral => exact .inr ⟨_, _, rfl, rfl, isThere, _, isNumeral⟩

/-- Fractions are taken as a whole. -/
theorem Greedy.fraction :
    Greedy (fun part => ∃ value, Fraction part value) fractionLength
      (fun character => (character == '.') = true ∨ character.isDigit = true) := by
  refine (Greedy.behindMark rfl fractionLength_cons ?_ ?_).congr fun _ => fraction_iff
  · intro text
    rcases take_digitsBehind 1 text with none | ⟨digits, value, isThere, isNumeral, taken⟩
    · exact .inl none
    · exact .inr ⟨digits, ⟨isThere, value, isNumeral⟩, taken⟩
  · rintro digits rest ⟨isThere, value, isNumeral⟩
    exact digitsBehind_append 1 isThere isNumeral rest

/-- The digits of an exponent behind their sign. -/
theorem exponentDigits_append
    {sign : List Char}
    {factor : Int}
    (isSign : ExponentSign sign factor)
    (isThere : digits ≠ [])
    (isNumeral : Numeral 10 digits value)
    (rest : List Char) :
    exponentDigits (sign ++ digits ++ rest) =
      1 + sign.length + digits.length + runLength Char.isDigit rest := by
  cases isSign with
  | none =>
      rw [List.nil_append, List.length_nil, Nat.add_zero,
        ← digitsBehind_append 1 isThere isNumeral rest]
      obtain ⟨first, more, rfl⟩ := List.exists_cons_of_ne_nil isThere
      have isDigit := isDigit_of_numeral isNumeral first List.mem_cons_self
      have noSign : (first == '+' || first == '-') = false := by
        refine eq_false_of_ne_true fun signed => ?_
        simp only [Bool.or_eq_true, beq_iff_eq] at signed
        rcases signed with rfl | rfl <;> cases isDigit
      rw [List.cons_append, exponentDigits, noSign]
      rfl
  | plus => exact digitsBehind_append 2 isThere isNumeral rest
  | minus => exact digitsBehind_append 2 isThere isNumeral rest

/-- The digits of an exponent with their sign. -/
def SignedDigits (part : List Char) : Prop :=
  ∃ sign digits factor value, part = sign ++ digits ∧ ExponentSign sign factor ∧ digits ≠ [] ∧
    Numeral 10 digits value

/-- The digits of an exponent are none, or a numeral behind a sign. -/
theorem take_exponentDigits
    (text : List Char) :
    exponentDigits text = 0 ∨
      ∃ part, SignedDigits part ∧ exponentDigits text = 1 + part.length ∧
        text.take part.length = part := by
  cases text with
  | nil => exact .inl rfl
  | cons first text =>
      rw [exponentDigits]
      split
      case isTrue signed =>
        obtain ⟨factor, isSign⟩ : ∃ factor, ExponentSign [first] factor := by
          simp only [Bool.or_eq_true, beq_iff_eq] at signed
          rcases signed with rfl | rfl
          · exact ⟨_, .plus⟩
          · exact ⟨_, .minus⟩
        rcases take_digitsBehind 2 text with
          none | ⟨digits, value, isThere, isNumeral, length, taken⟩
        · exact .inl none
        · refine .inr ⟨first :: digits, ?_, ?_, ?_⟩
          · exact ⟨[first], digits, factor, value, rfl, isSign, isThere, isNumeral⟩
          · rw [length, List.length_cons]
            omega
          · rw [List.length_cons, List.take_succ_cons, taken]
      case isFalse =>
        rcases take_digitsBehind 1 (first :: text) with
          none | ⟨digits, value, isThere, isNumeral, taken⟩
        · exact .inl none
        · exact .inr ⟨digits, ⟨[], digits, 1, value, rfl, .none, isThere, isNumeral⟩, taken⟩

/-- An exponent is nothing, or a mark with digits behind it. -/
theorem exponent_iff
    {part : List Char} :
    (part = [] ∨ ∃ mark behind, part = mark :: behind ∧ (mark == 'e' || mark == 'E') = true ∧
      SignedDigits behind) ↔ ∃ power, Exponent part power := by
  constructor
  · rintro (rfl | ⟨mark, _, rfl, isMark, sign, digits, factor, value, rfl, isSign, isThere,
      isNumeral⟩)
    · exact ⟨0, .none⟩
    · rw [Bool.or_eq_true, beq_iff_eq, beq_iff_eq] at isMark
      exact ⟨_, .digits isMark isSign isThere isNumeral⟩
  · rintro ⟨_, isExponent⟩
    cases isExponent with
    | none => exact .inl rfl
    | digits isMark isSign isThere isNumeral =>
        exact .inr ⟨_, _, rfl, by simpa using isMark, _, _, _, _, rfl, isSign, isThere, isNumeral⟩

/-- Exponents are taken as a whole. -/
theorem Greedy.exponent :
    Greedy (fun part => ∃ power, Exponent part power) exponentLength
      (fun character =>
        (character == 'e' || character == 'E') = true ∨ character.isDigit = true) := by
  refine (Greedy.behindMark rfl exponentLength_cons take_exponentDigits ?_).congr
    fun _ => exponent_iff
  rintro _ rest ⟨sign, digits, factor, value, rfl, isSign, isThere, isNumeral⟩
  rw [exponentDigits_append isSign isThere isNumeral, List.length_append, Nat.add_assoc 1]

/-! ## Numbers -/

/-- The form of a decimal number, in which every part may be empty. -/
def DecimalForm (part : List Char) : Prop :=
  ∃ start stop, part = start ++ stop ∧
    (∃ whole fraction, start = whole ++ fraction ∧
      (∀ digit ∈ whole, digit.isDigit = true) ∧ ∃ value, Fraction fraction value) ∧
    ∃ power, Exponent stop power

/-- Decimal numbers are taken as a whole. -/
theorem Greedy.decimal :
    Greedy DecimalForm decimalTail fun character =>
      (character.isDigit = true ∨ (character == '.') = true ∨ character.isDigit = true) ∨
        (character == 'e' || character == 'E') = true ∨ character.isDigit = true := by
  refine ((Greedy.run Char.isDigit).sequence .fraction ?_).sequence .exponent ?_
  · rintro _ _ ⟨_, isFraction⟩ isDigit
    cases isFraction with
    | digits => cases isDigit
  · rintro _ _ ⟨_, isExponent⟩ goesOn
    cases isExponent with
    | digits isMark => rcases isMark with rfl | rfl <;> simp at goesOn

/-- A decimal number that starts with a digit has a meaning. -/
theorem numberForm_of_decimalForm
    {first : Char}
    {rest : List Char}
    (isDigit : first.isDigit = true)
    (isDecimal : DecimalForm (first :: rest)) :
    ∃ meaning, NumberForm (first :: rest) meaning := by
  obtain ⟨_, exponent, cut, ⟨whole, fraction, rfl, all, part, isFraction⟩, power, isExponent⟩ :=
    isDecimal
  obtain ⟨value, isNumeral⟩ := numeral_of_isDigit all
  have isThere : whole ≠ [] := by
    rintro rfl
    cases isFraction with
    | none =>
        cases isExponent with
        | none => cases cut
        | digits isMark =>
            obtain ⟨rfl, -⟩ := List.cons.inj cut
            rcases isMark with rfl | rfl <;> cases isDigit
    | digits =>
        obtain ⟨rfl, -⟩ := List.cons.inj cut
        cases isDigit
  rw [cut]
  by_cases isWhole : fraction ++ exponent = []
  · rw [List.append_assoc, isWhole, List.append_nil]
    exact ⟨_, .integer isThere isNumeral⟩
  · exact ⟨_, .decimal isThere isNumeral isFraction isExponent isWhole⟩

/-- Digits alone are a decimal number. -/
theorem DecimalForm.integer
    (isNumeral : Numeral 10 digits value) :
    DecimalForm digits := by
  refine ⟨digits, [], (List.append_nil digits).symm, ?_, 0, .none⟩
  exact ⟨digits, [], (List.append_nil digits).symm, isDigit_of_numeral isNumeral, 0, .none⟩

/-- Digits with a fraction and an exponent are a decimal number. -/
theorem DecimalForm.parts
    {fraction exponent : List Char}
    {part : ℚ}
    {power : Int}
    (isNumeral : Numeral 10 digits value)
    (isFraction : Fraction fraction part)
    (isExponent : Exponent exponent power) :
    DecimalForm (digits ++ fraction ++ exponent) :=
  ⟨_, _, rfl, ⟨_, _, rfl, isDigit_of_numeral isNumeral, _, isFraction⟩, _, isExponent⟩

/-- A number is a decimal one, or it starts with a zero and the mark of a base. -/
theorem decimalForm_or_based
    {part : List Char}
    {meaning : NumberMeaning}
    (isForm : NumberForm part meaning) :
    DecimalForm part ∨
      ∃ base mark digits, part = '0' :: mark :: digits ∧ BaseMark base mark ∧
        ∀ digit ∈ digits, ∃ place, IsDigitOf base digit place := by
  cases isForm with
  | noDigits isMark => exact .inr ⟨_, _, [], rfl, isMark, by simp⟩
  | based isMark _ isNumeral =>
      exact .inr ⟨_, _, _, rfl, isMark, Literal.exists_place isNumeral⟩
  | integer _ isNumeral => exact .inl (.integer isNumeral)
  | decimal _ isNumeral isFraction isExponent => exact .inl (.parts isNumeral isFraction isExponent)

/-- A digit in front of a decimal number belongs to it. -/
theorem decimalTail_cons
    {first : Char}
    (isDigit : first.isDigit = true)
    (rest : List Char) :
    decimalTail (first :: rest) = decimalTail rest + 1 := by
  have whole : runLength Char.isDigit (first :: rest) = runLength Char.isDigit rest + 1 := by
    simp [runLength, isDigit]
  simp only [decimalTail, whole, Nat.add_right_comm _ 1, List.drop_succ_cons]

/-- There is no decimal number where the mark of a base is. -/
theorem decimalTail_of_mark
    {base : Nat}
    {mark : Char}
    (isMark : BaseMark base mark)
    (rest : List Char) :
    decimalTail (mark :: rest) = 0 := by
  cases isMark <;> simp [decimalTail, runLength, fractionLength_cons, exponentLength_cons]

/-- A decimal number has no mark of a base. -/
theorem DecimalForm.not_baseMark
    {base : Nat}
    {mark : Char}
    {rest : List Char}
    (isDecimal : DecimalForm ('0' :: mark :: rest)) :
    ¬BaseMark base mark := by
  intro isMark
  have longest := Greedy.decimal.longest _ [] isDecimal
  rw [List.append_nil, decimalTail_cons rfl, decimalTail_of_mark isMark] at longest
  simp at longest

/-- A mark belongs to one base only. -/
theorem base_unique
    {base other : Nat}
    {mark : Char}
    (isMark : BaseMark base mark)
    (isOther : BaseMark other mark) :
    base = other := by
  cases isMark <;> cases isOther <;> rfl

/-- The digits of a base are taken behind a zero and its mark. -/
theorem numberTail_of_mark
    {base : Nat}
    {mark : Char}
    (isMark : BaseMark base mark) :
    ∃ test : Char → Bool,
      (∀ character, test character = true ↔ ∃ value, IsDigitOf base character value) ∧
        ∀ more, numberTail '0' (mark :: more) = 1 + runLength test more := by
  cases isMark with
  | hexadecimal | capitalHexadecimal =>
      exact ⟨isHexDigit, fun _ => Literal.isHexDigit_iff, numberTail_cons _ _⟩
  | binary | capitalBinary =>
      exact ⟨isBinaryDigit, fun _ => Literal.isBinaryDigit_iff, numberTail_cons _ _⟩

/-- Without the mark of a base, a number is a decimal one. -/
theorem numberTail_of_noMark
    {first : Char}
    {rest : List Char}
    (noMark : ∀ base mark more, first = '0' → rest = mark :: more → ¬BaseMark base mark) :
    numberTail first rest = decimalTail rest := by
  cases rest with
  | nil => rfl
  | cons mark more =>
      have noBase : baseDigits? first mark = none := by
        unfold baseDigits?
        split
        case isTrue isMark =>
          simp only [Bool.and_eq_true, Bool.or_eq_true, beq_iff_eq] at isMark
          obtain ⟨isZero, rfl | rfl⟩ := isMark
          · exact absurd .hexadecimal (noMark 16 _ more isZero rfl)
          · exact absurd .capitalHexadecimal (noMark 16 _ more isZero rfl)
        case isFalse =>
          split
          case isTrue isMark =>
            simp only [Bool.and_eq_true, Bool.or_eq_true, beq_iff_eq] at isMark
            obtain ⟨isZero, rfl | rfl⟩ := isMark
            · exact absurd .binary (noMark 2 _ more isZero rfl)
            · exact absurd .capitalBinary (noMark 2 _ more isZero rfl)
          case isFalse => rfl
      rw [numberTail_cons, noBase]
      rfl

/-- Behind a zero and the mark of a base, the longest number takes all digits of the base. -/
theorem isLongestPrefix_based
    {base : Nat}
    {mark : Char}
    (isMark : BaseMark base mark)
    (more : List Char) :
    IsLongestPrefix (fun part => ∃ meaning, NumberForm part meaning) ('0' :: mark :: more)
      ('0' :: (mark :: more).take (numberTail '0' (mark :: more))) := by
  obtain ⟨test, tests, length⟩ := numberTail_of_mark isMark
  have digits := (Greedy.run test).isLongestPrefix more
  rw [length, Nat.add_comm 1, List.take_succ_cons]
  refine ⟨?_, ?_, ?_⟩
  · exact List.cons_prefix_cons.mpr ⟨rfl, List.cons_prefix_cons.mpr ⟨rfl, digits.starts⟩⟩
  · by_cases none : more.take (runLength test more) = []
    · rw [none]
      exact ⟨_, .noDigits isMark⟩
    · obtain ⟨value, isNumeral⟩ := Literal.exists_value fun digit isThere =>
        (tests digit).mp (digits.isForm digit isThere)
      exact ⟨_, .based isMark none isNumeral⟩
  · rintro other starts ⟨meaning, isForm⟩
    rcases decimalForm_or_based isForm with isDecimal | ⟨_, _, row, rfl, isOther, places⟩
    · have longest := (Greedy.decimal.isLongestPrefix _).longest other starts isDecimal
      rw [decimalTail_cons rfl, decimalTail_of_mark isMark] at longest
      exact Nat.le_trans longest (by simp)
    · obtain ⟨-, behindZero⟩ := List.cons_prefix_cons.mp starts
      obtain ⟨rfl, behindMark⟩ := List.cons_prefix_cons.mp behindZero
      obtain rfl := base_unique isMark isOther
      have longest := digits.longest row behindMark fun digit isThere =>
        (tests digit).mpr (places digit isThere)
      simpa using longest

/-- Without the mark of a base, the longest number is the longest decimal one. -/
theorem isLongestPrefix_decimal
    {first : Char}
    {rest : List Char}
    (isDigit : first.isDigit = true)
    (noMark : ∀ base mark more, first = '0' → rest = mark :: more → ¬BaseMark base mark) :
    IsLongestPrefix (fun part => ∃ meaning, NumberForm part meaning) (first :: rest)
      (first :: rest.take (numberTail first rest)) := by
  have decimals := Greedy.decimal.isLongestPrefix (first :: rest)
  rw [decimalTail_cons isDigit, List.take_succ_cons, ← numberTail_of_noMark noMark] at decimals
  refine ⟨decimals.starts, numberForm_of_decimalForm isDigit decimals.isForm, ?_⟩
  rintro other starts ⟨meaning, isForm⟩
  rcases decimalForm_or_based isForm with isDecimal | ⟨base, mark, row, rfl, isMark, -⟩
  · exact decimals.longest other starts isDecimal
  · obtain ⟨isZero, more, behind⟩ := List.cons_prefix_cons.mp starts
    exact absurd isMark (noMark base mark _ isZero.symm behind.symm)

/-- A number is the longest one where it starts. -/
theorem number_isLongestPrefix
    {first : Char}
    (isDigit : first.isDigit = true)
    (rest : List Char) :
    IsLongestPrefix (fun part => ∃ meaning, NumberForm part meaning) (first :: rest)
      (first :: rest.take (numberTail first rest)) := by
  by_cases isBased : ∃ base mark more, first = '0' ∧ rest = mark :: more ∧ BaseMark base mark
  · obtain ⟨base, mark, more, rfl, rfl, isMark⟩ := isBased
    exact isLongestPrefix_based isMark more
  · exact isLongestPrefix_decimal isDigit fun base mark more isZero behind isMark =>
      isBased ⟨base, mark, more, isZero, behind, isMark⟩

/-- A number that is scanned is the longest one where it starts. -/
theorem scanned_number
    {constants : Constants}
    {rest : List Char}
    {text : String}
    (isScanned : (TokenKind.number, text) = scanned constants rest) :
    IsLongestPrefix (fun part => ∃ meaning, NumberForm part meaning) rest text.toList := by
  cases rest with
  | nil => cases isScanned
  | cons first rest =>
      obtain ⟨isNumber, isText⟩ := Prod.mk.inj isScanned
      have kinds := tokenKind_cases constants first (tokenText first rest)
      obtain ⟨noString, noCharacter, isDigit⟩ :
          first ≠ '"' ∧ first ≠ '\'' ∧ first.isDigit = true := by
        simpa [← isNumber] using kinds
      have tail : tokenTail first rest = numberTail first rest := by
        simp [tokenTail, noString, noCharacter, isDigit]
      rw [isText, tokenText, String.toList_ofList, tail]
      exact number_isLongestPrefix isDigit rest

end Scan

end BotScript
