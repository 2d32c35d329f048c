import BotScript.Proofs.LexicalGrammar

namespace BotScript

/-!
# Scans that stop at blanks

How far a scan goes depends on what follows a token, but never on what follows
a blank.  If a scan stays within a part of a text, it goes as far when that part
is followed by a blank or by nothing at all.
-/

namespace Scan

/-- The end of a text, or a text that starts with a blank. -/
def StartsBlank (text : List Char) : Prop :=
  ∀ first, text.head? = some first → isBlank first = true

/-- A word without blanks that starts a text starts the part of it in front of a blank. -/
theorem prefix_of_startsBlank
    {word part behind : List Char}
    (noBlanks : ∀ character ∈ word, isBlank character = false)
    (blank : StartsBlank behind)
    (starts : word <+: part ++ behind) :
    word <+: part := by
  induction part generalizing word with
  | nil =>
      cases word with
      | nil => exact List.prefix_refl []
      | cons first word =>
          obtain ⟨rest, same⟩ := starts
          have isBlank := blank first (by rw [← List.nil_append behind, ← same]; rfl)
          exact absurd ((noBlanks first List.mem_cons_self).symm.trans isBlank) Bool.false_ne_true
  | cons first part inductionHypothesis =>
      cases word with
      | nil => exact List.nil_prefix
      | cons head word =>
          obtain ⟨rfl, further⟩ := List.cons_prefix_cons.mp starts
          refine List.cons_prefix_cons.mpr ⟨rfl, inductionHypothesis ?_ further⟩
          exact fun character inside => noBlanks character (List.mem_cons_of_mem head inside)

/-- A scan that does not reach beyond a part of a text goes as far in front of a blank. -/
def Stable (length : List Char → Nat) : Prop :=
  ∀ part behind blank, StartsBlank blank →
    length (part ++ behind) ≤ part.length → length (part ++ blank) = length (part ++ behind)

/-- A run of characters that pass a test stops at blanks that do not pass it. -/
theorem Stable.run
    {test : Char → Bool}
    (stops : ∀ character, isBlank character = true → test character = false) :
    Stable (runLength test) := by
  intro part behind blank startsBlank
  induction part with
  | nil =>
      intro stays
      have noRun : runLength test blank = 0 := by
        cases blank with
        | nil => rfl
        | cons first blank => simp [runLength, stops first (startsBlank first rfl)]
      exact noRun.trans (Nat.le_zero.mp stays).symm
  | cons first part inductionHypothesis =>
      intro stays
      cases tested : test first with
      | true =>
          have further := inductionHypothesis (by simpa [runLength, tested] using stays)
          simpa [runLength, tested] using further
      | false => simp [runLength, tested]

/-- Two scans, one behind the other. -/
theorem Stable.sequence
    {former latter : List Char → Nat}
    (formerStable : Stable former)
    (latterStable : Stable latter) :
    Stable fun text => former text + latter (text.drop (former text)) := by
  intro part behind blank startsBlank stays
  dsimp only at stays ⊢
  have formerStays : former (part ++ behind) ≤ part.length := by omega
  have sameFormer := formerStable part behind blank startsBlank formerStays
  simp only [sameFormer, List.drop_append_of_le_length formerStays] at stays ⊢
  rw [latterStable _ behind blank startsBlank (by rw [List.length_drop]; omega)]

/-- What holds of all blanks holds of a character that is one of them. -/
theorem of_isBlank
    {holds : Char → Prop}
    (space : holds ' ')
    (tab : holds '\t')
    (carriageReturn : holds '\r')
    (lineFeed : holds '\n')
    {character : Char}
    (blank : isBlank character = true) :
    holds character := by
  simp only [isBlank, Bool.or_eq_true, beq_iff_eq] at blank
  rcases blank with ((rfl | rfl) | rfl) | rfl
  · exact space
  · exact tab
  · exact carriageReturn
  · exact lineFeed

/-- No blank is a digit. -/
theorem isDigit_of_isBlank
    {character : Char}
    (blank : isBlank character = true) :
    character.isDigit = false := by
  exact @of_isBlank (fun character => character.isDigit = false) rfl rfl rfl rfl _ blank

/-- The length of digits behind a number of marks, none of which count without a digit. -/
def digitsBehind (marks : Nat) (text : List Char) : Nat :=
  if runLength Char.isDigit text = 0 then 0 else marks + runLength Char.isDigit text

/-- Digits behind marks are there if a digit is the first of them. -/
theorem digitsBehind_cons
    (marks : Nat)
    (first : Char)
    (text : List Char) :
    digitsBehind marks (first :: text) =
      if first.isDigit then marks + (1 + runLength Char.isDigit text) else 0 := by
  cases isDigit : first.isDigit with
  | false => simp [digitsBehind, runLength, isDigit]
  | true => simp [digitsBehind, runLength, isDigit, Nat.add_comm]

/-- Digits in a row stop at blanks. -/
theorem Stable.digits : Stable (runLength Char.isDigit) :=
  .run fun _ => isDigit_of_isBlank

/-- Digits behind marks stop at blanks. -/
theorem digitsBehind_stable
    {marks : Nat}
    {part behind blank : List Char}
    (startsBlank : StartsBlank blank)
    (stays : digitsBehind marks (part ++ behind) ≤ marks + part.length) :
    digitsBehind marks (part ++ blank) = digitsBehind marks (part ++ behind) := by
  have runStays : runLength Char.isDigit (part ++ behind) ≤ part.length := by
    unfold digitsBehind at stays
    split at stays <;> omega
  unfold digitsBehind
  rw [Stable.digits part behind blank startsBlank runStays]

/-- There are no digits where a blank is. -/
theorem digitsBehind_of_startsBlank
    {marks : Nat}
    {text : List Char}
    (startsBlank : StartsBlank text) :
    digitsBehind marks text = 0 := by
  cases text with
  | nil => rfl
  | cons first text => simp [digitsBehind, runLength, isDigit_of_isBlank (startsBlank first rfl)]

/-- A scan that goes on behind a mark stops at blanks if what it does there stops at them. -/
theorem Stable.behindMark
    {isMark : Char → Bool}
    {length further : List Char → Nat}
    (empty : length [] = 0)
    (cons : ∀ first text, length (first :: text) = if isMark first then further text else 0)
    (noMark : ∀ character, isBlank character = true → isMark character = false)
    (stable : ∀ part behind blank, StartsBlank blank →
      further (part ++ behind) ≤ 1 + part.length →
        further (part ++ blank) = further (part ++ behind)) :
    Stable length := by
  intro part behind blank startsBlank stays
  cases part with
  | nil =>
      refine Eq.trans ?_ (Nat.le_zero.mp stays).symm
      cases blank with
      | nil => exact empty
      | cons first blank => simp [cons, noMark first (startsBlank first rfl)]
  | cons first part =>
      rw [List.cons_append, cons] at stays ⊢
      rw [List.cons_append, cons]
      cases mark : isMark first with
      | false => rfl
      | true =>
          refine stable part behind blank startsBlank ?_
          rw [if_pos mark, List.length_cons] at stays
          omega

/-- A fraction is a point with digits behind it. -/
theorem fractionLength_cons
    (first : Char)
    (text : List Char) :
    fractionLength (first :: text) = if first == '.' then digitsBehind 1 text else 0 := by
  by_cases point : first = '.'
  · subst point
    cases text with
    | nil => rfl
    | cons digit text =>
        rw [digitsBehind_cons, ← Nat.add_assoc]
        rfl
  · simp [fractionLength, point]

/-- A fraction stops at blanks. -/
theorem Stable.fraction : Stable fractionLength :=
  .behindMark rfl fractionLength_cons
    (fun _ => @of_isBlank (fun character => (character == '.') = false) rfl rfl rfl rfl _)
    fun _ _ _ startsBlank stays => digitsBehind_stable startsBlank stays

/-- The length of an exponent behind its mark. -/
def exponentDigits : List Char → Nat
  | sign :: more =>
      if sign == '+' || sign == '-' then digitsBehind 2 more else digitsBehind 1 (sign :: more)
  | [] => 0

/-- An exponent is a mark with digits behind it, which may have a sign. -/
theorem exponentLength_cons
    (first : Char)
    (text : List Char) :
    exponentLength (first :: text) =
      if first == 'e' || first == 'E' then exponentDigits text else 0 := by
  cases mark : first == 'e' || first == 'E' with
  | false => simp [exponentLength, mark]
  | true =>
      match text with
      | [] => simp [exponentLength, exponentDigits]
      | [digit] =>
          cases signed : digit == '+' || digit == '-' with
          | false =>
              simp only [exponentLength, mark, exponentDigits, signed, digitsBehind_cons]
              rfl
          | true =>
              have noDigit : digit.isDigit = false := by
                simp only [Bool.or_eq_true, beq_iff_eq] at signed
                rcases signed with rfl | rfl <;> rfl
              simp only [exponentLength, mark, exponentDigits, signed, noDigit]
              rfl
      | sign :: digit :: more =>
          cases signed : sign == '+' || sign == '-' with
          | false =>
              simp only [exponentLength, mark, exponentDigits, signed, digitsBehind_cons,
                if_true, Bool.false_eq_true, if_false]
              split
              case isTrue isDigit =>
                simp only [runLength, List.takeWhile_cons, isDigit, if_true, List.length_cons]
                omega
              case isFalse noDigit => rfl
          | true =>
              simp only [exponentLength, mark, exponentDigits, signed, digitsBehind_cons,
                if_true, ← Nat.add_assoc]

/-- Digits are counted with the marks in front of them, or not at all. -/
theorem digitsBehind_eq_zero
    {marks : Nat}
    {text : List Char}
    (few : digitsBehind marks text ≤ marks) :
    digitsBehind marks text = 0 := by
  unfold digitsBehind at few ⊢
  by_cases none : runLength Char.isDigit text = 0
  · rw [if_pos none]
  · rw [if_neg none] at few
    omega

/-- The digits of an exponent stop at blanks. -/
theorem exponentDigits_stable
    {part behind blank : List Char}
    (startsBlank : StartsBlank blank)
    (stays : exponentDigits (part ++ behind) ≤ 1 + part.length) :
    exponentDigits (part ++ blank) = exponentDigits (part ++ behind) := by
  cases part with
  | nil =>
      have noneBehind : exponentDigits behind = 0 := by
        cases behind with
        | nil => rfl
        | cons sign behind =>
            simp only [List.nil_append, exponentDigits, List.length_nil] at stays ⊢
            split at stays
            case isTrue signed =>
              rw [if_pos signed]
              exact digitsBehind_eq_zero (by omega)
            case isFalse unsigned =>
              rw [if_neg unsigned]
              exact digitsBehind_eq_zero (by omega)
      have noneBlank : exponentDigits blank = 0 := by
        cases blank with
        | nil => rfl
        | cons first blank =>
            have noSign : (first == '+' || first == '-') = false :=
              @of_isBlank (fun first => (first == '+' || first == '-') = false) rfl rfl rfl rfl _
                (startsBlank first rfl)
            simp only [exponentDigits, noSign]
            exact digitsBehind_of_startsBlank startsBlank
      exact noneBlank.trans noneBehind.symm
  | cons sign part =>
      simp only [List.cons_append, exponentDigits, List.length_cons] at stays ⊢
      split at stays
      case isTrue signed =>
        rw [if_pos signed, if_pos signed]
        exact digitsBehind_stable startsBlank (by omega)
      case isFalse unsigned =>
        rw [if_neg unsigned, if_neg unsigned]
        exact @digitsBehind_stable 1 (sign :: part) behind blank startsBlank stays

/-- An exponent stops at blanks. -/
theorem Stable.exponent : Stable exponentLength :=
  .behindMark rfl exponentLength_cons
    (fun _ => @of_isBlank (fun character => (character == 'e' || character == 'E') = false)
      rfl rfl rfl rfl _)
    fun _ _ _ => exponentDigits_stable

/-- The length of a decimal number after its first digit. -/
def decimalTail (text : List Char) : Nat :=
  let whole := runLength Char.isDigit text
  let fraction := fractionLength (text.drop whole)
  whole + fraction + exponentLength (text.drop (whole + fraction))

/-- A decimal number stops at blanks. -/
theorem Stable.decimal : Stable decimalTail :=
  (Stable.digits.sequence .fraction).sequence .exponent

/-- The characters that numbers of another base have behind their first digit. -/
def baseDigits? (first mark : Char) : Option (Char → Bool) :=
  if first == '0' && (mark == 'x' || mark == 'X') then some isHexDigit
  else if first == '0' && (mark == 'b' || mark == 'B') then some isBinaryDigit
  else none

/-- A number is one of another base, or a decimal one. -/
theorem numberTail_cons
    (first mark : Char)
    (text : List Char) :
    numberTail first (mark :: text) =
      ((baseDigits? first mark).map fun isDigit => 1 + runLength isDigit text).getD
        (decimalTail (mark :: text)) := by
  simp only [numberTail, baseDigits?]
  split
  · rfl
  · split <;> rfl

/-- No blank is a digit of any base. -/
theorem baseDigits?_stops
    {first mark : Char}
    {isDigit : Char → Bool}
    (base : baseDigits? first mark = some isDigit)
    (character : Char)
    (blank : isBlank character = true) :
    isDigit character = false := by
  unfold baseDigits? at base
  split at base
  · cases base
    exact @of_isBlank (fun character => isHexDigit character = false) rfl rfl rfl rfl _ blank
  · split at base
    · cases base
      exact @of_isBlank (fun character => isBinaryDigit character = false) rfl rfl rfl rfl _ blank
    · cases base

/-- A number stops at blanks. -/
theorem Stable.number
    (first : Char) :
    Stable (numberTail first) := by
  intro part behind blank startsBlank stays
  cases part with
  | nil =>
      refine Eq.trans ?_ (Nat.le_zero.mp stays).symm
      have noDecimal : decimalTail blank = 0 :=
        Stable.decimal [] [] blank startsBlank (Nat.le_refl 0)
      cases blank with
      | nil => rfl
      | cons mark blank =>
          have noBase : baseDigits? first mark = none := by
            have noMark := @of_isBlank
              (fun mark =>
                (mark == 'x' || mark == 'X') = false ∧ (mark == 'b' || mark == 'B') = false)
              (by decide) (by decide) (by decide) (by decide) mark (startsBlank mark rfl)
            simp [baseDigits?, noMark.1, noMark.2]
          rw [List.nil_append, numberTail_cons, noBase]
          exact noDecimal
  | cons mark part =>
      rw [List.cons_append, numberTail_cons] at stays ⊢
      rw [List.cons_append, numberTail_cons]
      cases base : baseDigits? first mark with
      | none =>
          rw [base] at stays
          exact Stable.decimal (mark :: part) behind blank startsBlank stays
      | some isDigit =>
          rw [base, Option.map_some, Option.getD_some, List.length_cons] at stays
          rw [Option.map_some, Option.getD_some, Option.map_some, Option.getD_some,
            Stable.run (baseDigits?_stops base) part behind blank startsBlank (by omega)]

/-- The operators that a text starts with in front of a blank. -/
theorem operator_starts
    {symbol : Symbol}
    {part blank : List Char}
    (operator : symbol ∈ Symbol.operators)
    (startsBlank : StartsBlank blank)
    (starts : symbol.text.toList <+: part ++ blank) :
    symbol.text.toList <+: part := by
  have noBlanks : ∀ symbol ∈ Symbol.operators,
      symbol.text.toList.all (fun character => !isBlank character) = true := by
    decide
  refine prefix_of_startsBlank (fun character inside => ?_) startsBlank starts
  simpa using List.all_eq_true.mp (noBlanks symbol operator) character inside

/-- An operator stops at blanks. -/
theorem Stable.operator
    (first : Char) :
    Stable (operatorTail first) := by
  intro part behind blank startsBlank stays
  -- What starts the text in front of the blank starts the part, and so it starts the other text.
  have forth : ∀ symbol ∈ Symbol.operators, symbol.text.toList <+: first :: part ++ blank →
      symbol.text.toList <+: first :: part ++ behind := fun symbol operator starts =>
    (operator_starts operator startsBlank starts).trans (List.prefix_append _ _)
  unfold operatorTail at stays ⊢
  rw [← List.cons_append, ← List.cons_append]
  rw [← List.cons_append] at stays
  cases found : Symbol.longestOperator? (first :: part ++ behind) with
  | none =>
      cases other : Symbol.longestOperator? (first :: part ++ blank) with
      | none => rfl
      | some symbol =>
          have longest := Symbol.isLongestOperator_of_some other
          obtain ⟨_, some⟩ := Symbol.longestOperator?_isSome longest.operator
            (forth symbol longest.operator longest.starts)
          cases found.symm.trans some
  | some symbol =>
      rw [found] at stays
      have longest := Symbol.isLongestOperator_of_some found
      have inPart : symbol.text.toList <+: first :: part := by
        refine List.prefix_of_prefix_length_le longest.starts (List.prefix_append _ _) ?_
        rw [String.length_toList, List.length_cons]
        dsimp only at stays
        omega
      obtain ⟨other, otherFound⟩ := Symbol.longestOperator?_isSome longest.operator
        (inPart.trans (List.prefix_append _ blank))
      have otherLongest := Symbol.isLongestOperator_of_some otherFound
      rw [otherFound]
      have atLeast := otherLongest.longest symbol longest.operator
        (inPart.trans (List.prefix_append _ blank))
      have atMost := longest.longest other otherLongest.operator
        (forth other otherLongest.operator otherLongest.starts)
      dsimp only
      omega

/-- A word stops at blanks. -/
theorem Stable.word : Stable (runLength fun character => !endsWord character) :=
  .run fun character blank => by simp [endsWord, blank]

/-- Where a token ends does not depend on what follows a blank, literals in quotes apart. -/
theorem Stable.token
    {first : Char}
    (noString : first ≠ '"')
    (noCharacter : first ≠ '\'') :
    Stable (tokenTail first) := by
  intro part behind blank startsBlank stays
  simp only [tokenTail, beq_iff_eq, noString, noCharacter, if_false] at stays ⊢
  split
  case isTrue digit =>
    rw [if_pos digit] at stays
    exact Stable.number first part behind blank startsBlank stays
  case isFalse noDigit =>
    rw [if_neg noDigit] at stays
    split
    case isTrue starts =>
      rw [if_pos starts] at stays
      exact Stable.operator first part behind blank startsBlank stays
    case isFalse noStart =>
      rw [if_neg noStart] at stays
      exact Stable.word part behind blank startsBlank stays

/-! ## Scans stay within the text -/

/-- A run is part of the text. -/
theorem runLength_le
    (test : Char → Bool)
    (text : List Char) :
    runLength test text ≤ text.length :=
  (List.takeWhile_prefix test).length_le

/-- A run of characters that pass a test consists of them. -/
theorem take_runLength
    (test : Char → Bool)
    (text : List Char) :
    ∀ character ∈ text.take (runLength test text), test character = true := by
  intro character inside
  rw [runLength, ← List.prefix_iff_eq_take.mp (List.takeWhile_prefix test)] at inside
  exact List.all_eq_true.mp List.all_takeWhile character inside

/-- Digits behind marks are part of the text that the marks precede. -/
theorem digitsBehind_le
    (marks : Nat)
    (text : List Char) :
    digitsBehind marks text ≤ marks + text.length := by
  have run := runLength_le Char.isDigit text
  unfold digitsBehind
  split <;> omega

/-- A fraction is part of the text. -/
theorem fractionLength_le
    (text : List Char) :
    fractionLength text ≤ text.length := by
  cases text with
  | nil => exact Nat.le_refl 0
  | cons first text =>
      have digits := digitsBehind_le 1 text
      rw [fractionLength_cons, List.length_cons]
      split <;> omega

/-- An exponent is part of the text. -/
theorem exponentLength_le
    (text : List Char) :
    exponentLength text ≤ text.length := by
  match text with
  | [] => exact Nat.le_refl 0
  | [mark] =>
      rw [exponentLength_cons]
      split <;> exact Nat.zero_le _
  | mark :: sign :: more =>
      have signed := digitsBehind_le 2 more
      have unsigned := digitsBehind_le 1 (sign :: more)
      rw [exponentLength_cons, exponentDigits]
      simp only [List.length_cons] at unsigned ⊢
      split
      · split <;> omega
      · omega

/-- A decimal number is part of the text. -/
theorem decimalTail_le
    (text : List Char) :
    decimalTail text ≤ text.length := by
  have whole := runLength_le Char.isDigit text
  have fraction := fractionLength_le (text.drop (runLength Char.isDigit text))
  have exponent := exponentLength_le (text.drop (runLength Char.isDigit text +
    fractionLength (text.drop (runLength Char.isDigit text))))
  rw [List.length_drop] at fraction exponent
  simp only [decimalTail]
  omega

/-- A number is part of the text. -/
theorem numberTail_le
    (first : Char)
    (text : List Char) :
    numberTail first text ≤ text.length := by
  cases text with
  | nil => exact decimalTail_le []
  | cons mark text =>
      have decimal := decimalTail_le (mark :: text)
      rw [numberTail_cons]
      cases baseDigits? first mark with
      | none => exact decimal
      | some isDigit =>
          have run := runLength_le isDigit text
          rw [Option.map_some, Option.getD_some, List.length_cons]
          omega

/-- An operator is part of the text. -/
theorem operatorTail_le
    (first : Char)
    (text : List Char) :
    operatorTail first text ≤ text.length := by
  unfold operatorTail
  split
  case h_1 symbol found =>
    have size := (Symbol.isLongestOperator_of_some found).starts.length_le
    rw [String.length_toList, List.length_cons] at size
    omega
  case h_2 => exact Nat.zero_le _

/-! ## Literals with their closing quotes -/

/-- What stands between the quotes of a string: no quote, backslash or line end but escaped ones. -/
inductive StringBody : List Char → Prop where
  | nil : StringBody []
  | plain {first : Char} {rest : List Char} :
      first ≠ '"' → first ≠ '\\' → isLineEnd first = false →
      StringBody rest → StringBody (first :: rest)
  | escaped {escaped : Char} {rest : List Char} :
      isLineEnd escaped = false → StringBody rest → StringBody ('\\' :: escaped :: rest)

/-- What stands between the quotes of a character: nothing, a character or an escape sequence. -/
inductive CharacterBody : List Char → Prop where
  | nil : CharacterBody []
  | plain {content : Char} :
      content ≠ '\'' → content ≠ '\\' → isLineEnd content = false → CharacterBody [content]
  | shortUnicode {digits : List Char} :
      digits.length ≤ 4 → (∀ digit ∈ digits, isHexDigit digit = true) →
      CharacterBody ('\\' :: 'u' :: digits)
  | longUnicode {digits : List Char} :
      digits.length ≤ 8 → (∀ digit ∈ digits, isHexDigit digit = true) →
      CharacterBody ('\\' :: 'U' :: digits)
  | hexadecimal {digits : List Char} :
      (∀ digit ∈ digits, isHexDigit digit = true) → CharacterBody ('\\' :: 'x' :: digits)
  | octal {first : Char} {digits : List Char} :
      digits.length ≤ 2 → (∀ digit ∈ first :: digits, isOctalDigit digit = true) →
      CharacterBody ('\\' :: first :: digits)
  | escaped {content : Char} :
      content ∉ ['u', 'U', 'x'] → isOctalDigit content = false → isLineEnd content = false →
      CharacterBody ['\\', content]

/-- The scan of a string stops behind its closing quote. -/
theorem stringTail_closed
    {body : List Char}
    (isBody : StringBody body)
    (behind : List Char) :
    stringTail (body ++ '"' :: behind) = body.length + 1 := by
  induction isBody with
  | nil => simp [stringTail]
  | plain noQuote noBackslash noLineEnd _ inductionHypothesis =>
      simp [stringTail, *]
      omega
  | escaped noLineEnd _ inductionHypothesis =>
      simp [stringTail, noLineEnd, inductionHypothesis]
      omega

/-- A run that a closing quote stops. -/
theorem runLength_closed
    {test : Char → Bool}
    {digits : List Char}
    (all : ∀ digit ∈ digits, test digit = true)
    (noQuote : test '\'' = false)
    (behind : List Char) :
    runLength test (digits ++ '\'' :: behind) = digits.length := by
  rw [runLength, List.takeWhile_append_of_pos all, List.takeWhile_cons, noQuote]
  simp

/-- The scan of an escape sequence stops in front of the closing quote. -/
theorem characterTail_escape
    {escape behind : List Char}
    (stops : escapeTail (escape ++ '\'' :: behind) = escape.length) :
    characterTail (('\\' :: escape) ++ '\'' :: behind) = ('\\' :: escape).length + 1 := by
  simp [characterTail, stops, closingQuote]
  omega

/-- The scan of a character stops behind its closing quote. -/
theorem characterTail_closed
    {body : List Char}
    (isBody : CharacterBody body)
    (behind : List Char) :
    characterTail (body ++ '\'' :: behind) = body.length + 1 := by
  cases isBody with
  | nil => rfl
  | plain noQuote noBackslash noLineEnd =>
      simp [characterTail, closingQuote, *]
  | shortUnicode few all =>
      refine characterTail_escape ?_
      simp only [escapeTail, List.cons_append, runLength_closed all rfl]
      simp
      omega
  | longUnicode few all =>
      refine characterTail_escape ?_
      simp only [escapeTail, List.cons_append, runLength_closed all rfl]
      simp
      omega
  | hexadecimal all =>
      refine characterTail_escape ?_
      simp only [escapeTail, List.cons_append, runLength_closed all rfl]
      simp
      omega
  | @octal first digits few all =>
      have isOctal := all first List.mem_cons_self
      have noMark : first ≠ 'u' ∧ first ≠ 'U' ∧ first ≠ 'x' := by
        refine ⟨?_, ?_, ?_⟩ <;>
          · rintro rfl
            exact absurd isOctal (by decide)
      have run := runLength_closed all rfl behind
      refine characterTail_escape ?_
      rw [List.cons_append] at run ⊢
      simp [escapeTail, noMark, isOctal, run]
      omega
  | escaped plain noOctal noLineEnd =>
      refine characterTail_escape ?_
      simp only [List.mem_cons, List.not_mem_nil, or_false, not_or] at plain
      simp [escapeTail, plain, noOctal, noLineEnd]

end Scan

/-- Literals that end with their own closing quotes. -/
structure Token.Closed (token : Token) : Prop where
  string : token.kind = .string →
    ∃ body, Scan.StringBody body ∧ token.text.toList = '"' :: (body ++ ['"'])
  character : token.kind = .character →
    ∃ body, Scan.CharacterBody body ∧ token.text.toList = '\'' :: (body ++ ['\''])

namespace Scan

/-- What is taken of a text with its closing quote starts the text. -/
theorem take_body
    {text body : List Char}
    {quote : Char}
    {length : Nat}
    (taken : text.take length = body ++ [quote]) :
    ∃ more, text = body ++ quote :: more := by
  refine ⟨text.drop length, ?_⟩
  calc text
      _ = text.take length ++ text.drop length := (List.take_append_drop length text).symm
      _ = body ++ quote :: text.drop length := by rw [taken, List.append_assoc]; rfl

section Closed

variable {constants : Constants} {first : Char} {span : Span} {separator : String}

/-- A token that is closed if it is a literal is part of the text. -/
theorem tokenTail_le
    {rest : List Char}
    (closed : Token.Closed ⟨tokenKind constants first (tokenText first rest),
      tokenText first rest, span, separator⟩) :
    tokenTail first rest ≤ rest.length := by
  by_cases string : first = '"'
  · subst string
    obtain ⟨body, isBody, spelled⟩ := closed.string rfl
    rw [tokenText, String.toList_ofList, List.cons.injEq] at spelled
    obtain ⟨more, rfl⟩ := take_body spelled.2
    have tail : tokenTail '"' (body ++ '"' :: more) = body.length + 1 := stringTail_closed isBody _
    simp [tail]
  · by_cases character : first = '\''
    · subst character
      obtain ⟨body, isBody, spelled⟩ := closed.character rfl
      rw [tokenText, String.toList_ofList, List.cons.injEq] at spelled
      obtain ⟨more, rfl⟩ := take_body spelled.2
      have tail : tokenTail '\'' (body ++ '\'' :: more) = body.length + 1 :=
        characterTail_closed isBody _
      simp [tail]
    · simp only [tokenTail, beq_iff_eq, string, character, if_false]
      split
      · exact numberTail_le first rest
      · split
        · exact operatorTail_le first rest
        · exact runLength_le _ rest

/--
A token that is closed if it is a literal ends where it did when what follows it
is the same up to a blank or the end of the text.
-/
theorem tokenTail_same
    {part behind blank : List Char}
    (closed : Token.Closed ⟨tokenKind constants first (tokenText first (part ++ behind)),
      tokenText first (part ++ behind), span, separator⟩)
    (startsBlank : StartsBlank blank)
    (inPart : tokenTail first (part ++ behind) ≤ part.length) :
    tokenTail first (part ++ blank) = tokenTail first (part ++ behind) := by
  by_cases string : first = '"'
  · subst string
    obtain ⟨body, isBody, spelled⟩ := closed.string rfl
    rw [tokenText, String.toList_ofList, List.cons.injEq,
      List.take_append_of_le_length inPart] at spelled
    obtain ⟨more, rfl⟩ := take_body spelled.2
    have tail (text : List Char) : tokenTail '"' (body ++ '"' :: text) = body.length + 1 :=
      stringTail_closed isBody text
    simp [tail]
  · by_cases character : first = '\''
    · subst character
      obtain ⟨body, isBody, spelled⟩ := closed.character rfl
      rw [tokenText, String.toList_ofList, List.cons.injEq,
        List.take_append_of_le_length inPart] at spelled
      obtain ⟨more, rfl⟩ := take_body spelled.2
      have tail (text : List Char) : tokenTail '\'' (body ++ '\'' :: text) = body.length + 1 :=
        characterTail_closed isBody text
      simp [tail]
    · exact Stable.token string character part behind blank startsBlank inPart

end Closed

end Scan

end BotScript
