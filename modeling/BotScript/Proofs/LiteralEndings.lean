import BotScript.Proofs.StringLiterals

namespace BotScript

/-!
# Literals without closing quotes

A literal that the scan closed is never said to lack its quote.  One that it left
open is always refused, but the quote is said to be missing only if the text does
not end with an escaped quote: the decoder takes that one for the closing quote
and finds the backslash in front of it alone.
-/

/-- A refusal for something else than a missing quote. -/
def Refused {α : Type} (answer : Except ErrorCode α) : Prop :=
  ∃ code, code ≠ .endQuote ∧ answer = .error code

/-- What is refused behind a character is refused with it. -/
theorem Refused.behind
    {answer : Except ErrorCode (List Char)}
    (refused : Refused answer)
    (character : Char) :
    Refused (answer.map (character :: ·)) := by
  obtain ⟨code, notQuote, rfl⟩ := refused
  exact ⟨code, notQuote, rfl⟩

namespace Literal

variable {text digits rest : List Char} {character : Char} {length : Nat}

/-! ## Escape sequences -/

/-- An octal escape takes up to three digits. -/
theorem octalEscape_cases (text : List Char) :
    Refused (octalEscape text) ∨
      ∃ character,
        octalEscape text = .ok (character, ((text.take 3).takeWhile Scan.isOctalDigit).length) := by
  unfold octalEscape
  dsimp only
  split
  case isTrue => exact .inl ⟨_, by decide, rfl⟩
  case isFalse => exact .inr ⟨_, rfl⟩

/-- A hexadecimal escape takes all digits that are there. -/
theorem hexEscape_cases (text : List Char) :
    Refused (hexEscape text) ∨
      ∃ character, hexEscape text = .ok (character, (text.takeWhile Scan.isHexDigit).length) := by
  unfold hexEscape
  dsimp only
  split
  case isTrue => exact .inl ⟨_, by decide, rfl⟩
  case isFalse =>
    split
    case h_1 character _ => exact .inr ⟨character, rfl⟩
    case h_2 => exact .inl ⟨_, by decide, rfl⟩

/-- A universal escape takes as many digits as it needs. -/
theorem universalEscape_cases
    (count : Nat)
    (text : List Char) :
    Refused (universalEscape count text) ∨
      count ≤ ((text.take count).takeWhile Scan.isHexDigit).length ∧
        ∃ character, universalEscape count text = .ok (character, count) := by
  unfold universalEscape
  dsimp only
  split
  case isTrue => exact .inl ⟨_, by decide, rfl⟩
  case isFalse enough =>
    split
    case h_1 character _ => exact .inr ⟨Nat.not_lt.mp enough, character, rfl⟩
    case h_2 => exact .inl ⟨_, by decide, rfl⟩

/-- The forms of escape sequences behind their marks, and how many characters they take. -/
inductive Escapes (text : List Char) : Char → Nat → Prop where
  | simple {mark : Char} : (simpleEscape? mark).isSome = true → Escapes text mark 1
  | octal {mark : Char} :
      Scan.isOctalDigit mark = true →
      Escapes text mark (((mark :: text).take 3).takeWhile Scan.isOctalDigit).length
  | hexadecimal : Escapes text 'x' ((text.takeWhile Scan.isHexDigit).length + 1)
  | shortUnicode :
      4 ≤ ((text.take 4).takeWhile Scan.isHexDigit).length → Escapes text 'u' (4 + 1)
  | longUnicode :
      8 ≤ ((text.take 8).takeWhile Scan.isHexDigit).length → Escapes text 'U' (8 + 1)

/-- An escape sequence is refused, or it has one of these forms. -/
theorem escape_cases
    (mark : Char)
    (text : List Char) :
    Refused (escape (mark :: text)) ∨
      ∃ character length, escape (mark :: text) = .ok (character, length) ∧
        Escapes text mark length := by
  unfold escape
  split
  case h_1 nil => cases nil
  case h_2 first rest same =>
    obtain ⟨rfl, rfl⟩ := List.cons.inj same
    split
    case h_1 character isSimple =>
      exact .inr ⟨character, 1, rfl, .simple (by rw [isSimple, Option.isSome_some])⟩
    case h_2 =>
      split
      case isTrue isOctal =>
        rcases octalEscape_cases (mark :: text) with refused | ⟨character, taken⟩
        · exact .inl refused
        · exact .inr ⟨character, _, taken, .octal isOctal⟩
      case isFalse =>
        split
        case isTrue isMark =>
          obtain rfl := beq_iff_eq.mp isMark
          rcases hexEscape_cases text with ⟨code, notQuote, refused⟩ | ⟨character, taken⟩
          · exact .inl ⟨code, notQuote, by rw [refused]; rfl⟩
          · exact .inr ⟨character, _, by rw [taken]; rfl, .hexadecimal⟩
        case isFalse =>
          split
          case isTrue isMark =>
            obtain rfl := beq_iff_eq.mp isMark
            rcases universalEscape_cases 4 text with
              ⟨code, notQuote, refused⟩ | ⟨enough, character, taken⟩
            · exact .inl ⟨code, notQuote, by rw [refused]; rfl⟩
            · exact .inr ⟨character, _, by rw [taken]; rfl, .shortUnicode enough⟩
          case isFalse =>
            split
            case isTrue isMark =>
              obtain rfl := beq_iff_eq.mp isMark
              rcases universalEscape_cases 8 text with
                ⟨code, notQuote, refused⟩ | ⟨enough, character, taken⟩
              · exact .inl ⟨code, notQuote, by rw [refused]; rfl⟩
              · exact .inr ⟨character, _, by rw [taken]; rfl, .longUnicode enough⟩
            case isFalse => exact .inl ⟨_, by decide, rfl⟩

/-- The digits that a text starts with, in front of the rest. -/
theorem exists_digits
    {test : Char → Bool}
    {part : List Char}
    (isPrefix : part.takeWhile test <+: text)
    (areDigits : ∀ digit, test digit = true → Scan.isHexDigit digit = true) :
    ∃ digits rest,
      text = digits ++ rest ∧ (∀ digit ∈ digits, Scan.isHexDigit digit = true) ∧
        (part.takeWhile test).length = digits.length := by
  obtain ⟨rest, same⟩ := isPrefix
  refine ⟨_, rest, same.symm, fun digit isThere => areDigits digit ?_, rfl⟩
  exact List.all_eq_true.mp List.all_takeWhile digit isThere

/-- Behind its mark, an escape sequence takes digits only. -/
theorem Escapes.taken
    {mark : Char}
    (escapes : Escapes text mark length) :
    ∃ digits rest,
      text = digits ++ rest ∧ (∀ digit ∈ digits, Scan.isHexDigit digit = true) ∧
        length = digits.length + 1 := by
  have universal
      (count : Nat)
      (enough : count ≤ ((text.take count).takeWhile Scan.isHexDigit).length) :
      ∃ digits rest,
        text = digits ++ rest ∧ (∀ digit ∈ digits, Scan.isHexDigit digit = true) ∧
          count + 1 = digits.length + 1 := by
    have isPrefix := (List.takeWhile_prefix Scan.isHexDigit).trans (List.take_prefix count text)
    have most := (List.takeWhile_prefix (l := text.take count) Scan.isHexDigit).length_le
    obtain ⟨digits, rest, same, all, length⟩ := exists_digits isPrefix fun _ => id
    rw [List.length_take] at most
    exact ⟨digits, rest, same, all, by omega⟩
  cases escapes with
  | simple => exact ⟨[], text, rfl, by simp, rfl⟩
  | octal isOctal =>
      have isPrefix := (List.takeWhile_prefix Scan.isOctalDigit).trans (List.take_prefix 2 text)
      obtain ⟨digits, rest, same, all, length⟩ :=
        exists_digits isPrefix fun _ => isHexDigit_of_isOctalDigit
      refine ⟨digits, rest, same, all, ?_⟩
      rw [List.take_succ_cons, List.takeWhile_cons, if_pos isOctal, List.length_cons, length]
  | hexadecimal =>
      obtain ⟨digits, rest, same, all, length⟩ :=
        exists_digits (List.takeWhile_prefix (l := text) Scan.isHexDigit) fun _ => id
      exact ⟨digits, rest, same, all, congrArg Nat.succ length⟩
  | shortUnicode enough => exact universal 4 enough
  | longUnicode enough => exact universal 8 enough

/-! ## Decoding -/

/-- A backslash with an escape sequence behind it is refused, or it stands for a character. -/
theorem unescape_cases
    (mark : Char)
    (text : List Char) :
    Refused (unescape ('\\' :: mark :: text)) ∨
      ∃ character length, Escapes text mark length ∧
        unescape ('\\' :: mark :: text) =
          (unescape ((mark :: text).drop length)).map (character :: ·) := by
  rw [unescape, if_pos (beq_self_eq_true _)]
  rcases escape_cases mark text with ⟨code, notQuote, refused⟩ | ⟨character, length, taken, escapes⟩
  · exact .inl ⟨code, notQuote, by rw [refused]⟩
  · exact .inr ⟨character, length, escapes, by rw [taken]⟩

/-- The text between quotes is decoded, or it is refused. -/
theorem unescape_decodes (text : List Char) :
    Refused (unescape text) ∨ ∃ decoded, unescape text = .ok decoded := by
  induction text using unescape.induct with
  | case1 => exact .inr ⟨[], by rw [unescape]⟩
  | case2 first rest isBackslash code isError =>
      have notQuote : code ≠ .endQuote := by
        rintro rfl
        cases rest with
        | nil => cases isError
        | cons mark text =>
            rcases escape_cases mark text with ⟨code, notQuote, refused⟩ | ⟨_, _, taken, -⟩
            · exact notQuote (Except.error.inj (refused.symm.trans isError))
            · cases taken.symm.trans isError
      exact .inl ⟨code, notQuote, by rw [unescape, if_pos isBackslash, isError]⟩
  | case3 first rest isBackslash character length taken inductionHypothesis =>
      rw [unescape, if_pos isBackslash, taken]
      rcases inductionHypothesis with refused | ⟨decoded, isDecoded⟩
      · exact .inl (refused.behind character)
      · exact .inr ⟨_, congrArg (Except.map _) isDecoded⟩
  | case4 first rest plain inductionHypothesis =>
      rw [unescape, if_neg plain]
      rcases inductionHypothesis with refused | ⟨decoded, isDecoded⟩
      · exact .inl (refused.behind first)
      · exact .inr ⟨_, congrArg (Except.map _) isDecoded⟩

end Literal

namespace Scan

variable {body digits text : List Char}

/-- What follows digits between the quotes of a string can stand there without them. -/
theorem StringBody.behindDigits
    (all : ∀ digit ∈ digits, isHexDigit digit = true)
    (isBody : StringBody (digits ++ body)) :
    StringBody body := by
  induction digits with
  | nil => exact isBody
  | cons first digits inductionHypothesis =>
      obtain ⟨isDigit, all⟩ := List.forall_mem_cons.mp all
      obtain ⟨-, noBackslash, -⟩ := plain_of_isHexDigit isDigit
      rw [List.cons_append] at isBody
      generalize isText : digits ++ body = text at isBody
      cases isBody with
      | plain _ _ _ isRest =>
          subst isText
          exact inductionHypothesis all isRest
      | escaped => exact absurd rfl noBackslash

/-- A quote that ends what stands between the quotes of a string is an escaped one. -/
theorem StringBody.escapedQuote
    (isBody : StringBody body)
    (isLast : body.getLast? = some '"') :
    ∃ former, body = former ++ ['\\', '"'] ∧ StringBody former := by
  induction isBody with
  | nil => cases isLast
  | @plain first rest noQuote noBackslash noLineEnd _ inductionHypothesis =>
      cases rest with
      | nil => exact absurd (Option.some.inj isLast) noQuote
      | cons second rest =>
          obtain ⟨former, same, isFormer⟩ := inductionHypothesis isLast
          exact ⟨first :: former, by rw [same, List.cons_append],
            .plain noQuote noBackslash noLineEnd isFormer⟩
  | @escaped mark rest noLineEnd _ inductionHypothesis =>
      cases rest with
      | nil =>
          obtain rfl := Option.some.inj isLast
          exact ⟨[], rfl, .nil⟩
      | cons second rest =>
          obtain ⟨former, same, isFormer⟩ := inductionHypothesis isLast
          exact ⟨'\\' :: mark :: former, by rw [same, List.cons_append, List.cons_append],
            .escaped noLineEnd isFormer⟩

end Scan

namespace Literal

/-- A backslash alone behind the text of a string is refused. -/
theorem unescape_open
    {body : List Char}
    (isBody : Scan.StringBody body) :
    Refused (unescape (body ++ ['\\'])) := by
  cases isBody with
  | nil => exact ⟨.badEscape, by decide, by simp [unescape, escape]⟩
  | plain noQuote noBackslash noLineEnd isRest =>
      rw [List.cons_append, unescape_plain noBackslash]
      exact (unescape_open isRest).behind _
  | @escaped mark rest _ isRest =>
      rcases unescape_cases mark (rest ++ ['\\']) with
        refused | ⟨character, length, escapes, decoded⟩
      · exact refused
      · obtain ⟨digits, left, same, all, rfl⟩ := escapes.taken
        -- The digits end in front of the backslash, so the decoder stays in step with the scan.
        obtain ⟨former, rfl, rfl⟩ :
            ∃ former, rest = digits ++ former ∧ left = former ++ ['\\'] := by
          rcases List.append_eq_append_iff.mp same with ⟨more, rfl, ends⟩ | further
          · cases more with
            | nil => exact ⟨[], by simp, ends.symm⟩
            | cons first more =>
                obtain ⟨rfl, -⟩ := List.cons.inj ends
                exact absurd (all '\\' (by simp)) (by decide)
          · exact further
        rw [List.cons_append, List.cons_append, decoded, List.drop_succ_cons, same, List.drop_left]
        exact (unescape_open (isRest.behindDigits all)).behind _
termination_by body.length

end Literal

namespace Scan

variable {body digits text : List Char}

/-- A quote that ends what stands between the quotes of a character is an escaped one. -/
theorem CharacterBody.escapedQuote
    (isBody : CharacterBody body)
    (isLast : body.getLast? = some '\'') :
    body = ['\\', '\''] := by
  have noDigit {mark : Char} {digits : List Char} (isMark : mark ≠ '\'')
      (all : ∀ digit ∈ digits, isHexDigit digit = true) :
      ('\\' :: mark :: digits).getLast? ≠ some '\'' := by
    intro isLast
    have inside := List.mem_of_getLast? isLast
    simp only [List.mem_cons] at inside
    rcases inside with isBackslash | isQuote | isDigit
    · cases isBackslash
    · exact isMark isQuote.symm
    · exact absurd (all _ isDigit) (by decide)
  cases isBody with
  | nil => cases isLast
  | plain noQuote => exact absurd (Option.some.inj isLast) noQuote
  | shortUnicode _ all => exact absurd isLast (noDigit (by decide) all)
  | longUnicode _ all => exact absurd isLast (noDigit (by decide) all)
  | hexadecimal all => exact absurd isLast (noDigit (by decide) all)
  | @octal first digits _ all =>
      obtain ⟨isFirst, all⟩ := List.forall_mem_cons.mp all
      refine absurd isLast (noDigit ?_ fun digit isThere =>
        Literal.isHexDigit_of_isOctalDigit (all digit isThere))
      rintro rfl
      exact absurd isFirst (by decide)
  | escaped =>
      obtain rfl := Option.some.inj isLast
      rfl

/-! ## Scanning -/

/-- A string is scanned up to its closing quote, or it is left open. -/
theorem stringTail_cases (text : List Char) :
    ∃ body, StringBody body ∧
      (text.take (stringTail text) = body ++ ['"'] ∨ text.take (stringTail text) = body ∨
        text.take (stringTail text) = body ++ ['\\']) := by
  induction text using stringTail.induct with
  | case1 => exact ⟨[], .nil, .inr (.inl rfl)⟩
  | case2 rest => exact ⟨[], .nil, .inl (by simp [stringTail])⟩
  | case3 => exact ⟨[], .nil, .inr (.inr (by simp [stringTail]))⟩
  | case4 mark rest isEnd =>
      exact ⟨[], .nil, .inr (.inr (by simp [stringTail, isEnd]))⟩
  | case5 mark rest noEnd inductionHypothesis =>
      obtain ⟨body, isBody, taken⟩ := inductionHypothesis
      refine ⟨_, .escaped (eq_false_of_ne_true noEnd) isBody, ?_⟩
      have tail : stringTail ('\\' :: mark :: rest) = stringTail rest + 2 := by
        simp [stringTail, noEnd, Nat.add_comm]
      simpa [tail] using taken
  | case6 first rest noQuote noLast noEscape isEnd =>
      refine ⟨[], .nil, .inr (.inl ?_)⟩
      rw [stringTail.eq_5 first rest noQuote noLast noEscape, if_pos isEnd, List.take_zero]
  | case7 first rest noQuote noLast noEscape noEnd inductionHypothesis =>
      obtain ⟨body, isBody, taken⟩ := inductionHypothesis
      have noBackslash : first ≠ '\\' := by
        rintro rfl
        cases rest with
        | nil => exact noLast rfl rfl
        | cons second rest => exact noEscape second rest rfl rfl
      refine ⟨_, .plain noQuote noBackslash (eq_false_of_ne_true noEnd) isBody, ?_⟩
      have tail : stringTail (first :: rest) = stringTail rest + 1 := by
        rw [stringTail.eq_5 first rest noQuote noLast noEscape, if_neg noEnd, Nat.add_comm]
      simpa [tail] using taken

/-- A closing quote is taken if it is there. -/
theorem closingQuote_cases (text : List Char) :
    text.take (closingQuote text) = ['\''] ∨ closingQuote text = 0 := by
  unfold closingQuote
  split
  case h_1 => exact .inl rfl
  case h_2 => exact .inr rfl

/-- The start of a run of characters that pass a test consists of them. -/
theorem take_min_runLength
    (test : Char → Bool)
    (count : Nat)
    (text : List Char) :
    (text.take (min count (runLength test text))).length ≤ count ∧
      ∀ character ∈ text.take (min count (runLength test text)), test character = true := by
  rw [← List.take_take]
  refine ⟨List.length_take_le _ _, fun character inside => ?_⟩
  exact take_runLength test text character (List.mem_of_mem_take inside)

/-- What is scanned behind a backslash is an escape sequence, or nothing. -/
theorem escapeTail_cases (text : List Char) :
    CharacterBody ('\\' :: text.take (escapeTail text)) ∨
      escapeTail text = 0 ∧ closingQuote text = 0 := by
  cases text with
  | nil => exact .inr ⟨rfl, rfl⟩
  | cons mark rest =>
      rw [escapeTail]
      split
      case isTrue isMark =>
        obtain ⟨few, all⟩ := take_min_runLength isHexDigit 4 rest
        obtain rfl := beq_iff_eq.mp isMark
        rw [Nat.add_comm 1, List.take_succ_cons]
        exact .inl (.shortUnicode few all)
      case isFalse noShort =>
        split
        case isTrue isMark =>
          obtain ⟨few, all⟩ := take_min_runLength isHexDigit 8 rest
          obtain rfl := beq_iff_eq.mp isMark
          rw [Nat.add_comm 1, List.take_succ_cons]
          exact .inl (.longUnicode few all)
        case isFalse noLong =>
          split
          case isTrue isMark =>
            obtain rfl := beq_iff_eq.mp isMark
            rw [Nat.add_comm 1, List.take_succ_cons]
            exact .inl (.hexadecimal (take_runLength isHexDigit rest))
          case isFalse noHexadecimal =>
            split
            case isTrue isOctal =>
              obtain ⟨few, all⟩ := take_min_runLength isOctalDigit 2 rest
              have length : min 3 (runLength isOctalDigit (mark :: rest)) =
                  min 2 (runLength isOctalDigit rest) + 1 := by
                rw [runLength, List.takeWhile_cons, if_pos isOctal, List.length_cons, runLength]
                omega
              rw [length, List.take_succ_cons]
              exact .inl (.octal few (List.forall_mem_cons.mpr ⟨isOctal, all⟩))
            case isFalse noOctal =>
              split
              case isTrue isEnd =>
                refine .inr ⟨rfl, ?_⟩
                simp only [isLineEnd, Bool.or_eq_true, beq_iff_eq] at isEnd
                rcases isEnd with rfl | rfl <;> rfl
              case isFalse noEnd =>
                simp only [beq_iff_eq] at noShort noLong noHexadecimal
                refine .inl (.escaped ?_ (eq_false_of_ne_true noOctal) (eq_false_of_ne_true noEnd))
                simp [noShort, noLong, noHexadecimal]

/-- A character is scanned up to its closing quote, or it is left open. -/
theorem characterTail_cases (text : List Char) :
    ∃ body,
      CharacterBody body ∧ text.take (characterTail text) = body ++ ['\''] ∨
        (CharacterBody body ∨ body = ['\\']) ∧ text.take (characterTail text) = body := by
  unfold characterTail
  split
  case h_1 => exact ⟨[], .inr ⟨.inl .nil, rfl⟩⟩
  case h_2 => exact ⟨[], .inl ⟨.nil, rfl⟩⟩
  case h_3 rest =>
    dsimp only
    rw [Nat.add_assoc, Nat.add_comm 1, List.take_succ_cons, List.take_add]
    rcases escapeTail_cases rest with isBody | ⟨noEscape, noQuote⟩
    · rcases closingQuote_cases (rest.drop (escapeTail rest)) with isClosed | isOpen
      · exact ⟨_, .inl ⟨isBody, by rw [isClosed]; rfl⟩⟩
      · exact ⟨_, .inr ⟨.inl isBody, by rw [isOpen]; simp⟩⟩
    · exact ⟨['\\'], .inr ⟨.inr rfl, by simp [noEscape, noQuote]⟩⟩
  case h_4 first rest noQuote noBackslash =>
    split
    case isTrue => exact ⟨[], .inr ⟨.inl .nil, rfl⟩⟩
    case isFalse noEnd =>
      have isBody : CharacterBody [first] :=
        .plain noQuote noBackslash (eq_false_of_ne_true noEnd)
      rw [Nat.add_comm, List.take_succ_cons]
      rcases closingQuote_cases rest with isClosed | isOpen
      · exact ⟨_, .inl ⟨isBody, by rw [isClosed]; rfl⟩⟩
      · exact ⟨_, .inr ⟨.inl isBody, by rw [isOpen, List.take_zero]⟩⟩

end Scan

namespace Literal

variable {body : List Char} {quote : Char}

/-- An escape sequence that a character consists of is taken as a whole. -/
theorem Escapes.whole
    {mark : Char}
    {digits : List Char}
    {length : Nat}
    (isBody : Scan.CharacterBody ('\\' :: mark :: digits))
    (escapes : Escapes digits mark length) :
    (mark :: digits).drop length = [] := by
  cases escapes with
  | simple isSimple =>
      cases isBody with
      | shortUnicode | longUnicode | hexadecimal => cases isSimple
      | octal _ all =>
          obtain ⟨place, isDigit⟩ := isOctalDigit_iff.mp (all mark List.mem_cons_self)
          rw [simpleEscape?_digit isDigit] at isSimple
          cases isSimple
      | escaped => rfl
  | octal isOctal =>
      cases isBody with
      | shortUnicode | longUnicode | hexadecimal => exact absurd isOctal (by decide)
      | octal few all =>
          have short : (mark :: digits).length ≤ 3 := Nat.succ_le_succ few
          rw [List.take_of_length_le short, List.takeWhile_eq_self_iff.mpr all, List.drop_length]
      | escaped _ noOctal => exact absurd (noOctal.symm.trans isOctal) Bool.false_ne_true
  | hexadecimal =>
      cases isBody with
      | hexadecimal all =>
          rw [List.takeWhile_eq_self_iff.mpr all, List.drop_succ_cons, List.drop_length]
      | octal _ all => exact absurd (all 'x' List.mem_cons_self) (by decide)
      | escaped noMark => exact absurd (by decide) noMark
  | shortUnicode =>
      cases isBody with
      | shortUnicode few => exact List.drop_of_length_le (Nat.succ_le_succ few)
      | octal _ all => exact absurd (all 'u' List.mem_cons_self) (by decide)
      | escaped noMark => exact absurd (by decide) noMark
  | longUnicode =>
      cases isBody with
      | longUnicode few => exact List.drop_of_length_le (Nat.succ_le_succ few)
      | octal _ all => exact absurd (all 'U' List.mem_cons_self) (by decide)
      | escaped noMark => exact absurd (by decide) noMark

/-- What stands between the quotes of a character is one at most, or it is refused. -/
theorem unescape_character
    (isBody : Scan.CharacterBody body) :
    Refused (unescape body) ∨
      unescape body = .ok [] ∨ ∃ character, unescape body = .ok [character] := by
  have escaped {mark : Char} {digits : List Char}
      (isBody : Scan.CharacterBody ('\\' :: mark :: digits)) :
      Refused (unescape ('\\' :: mark :: digits)) ∨
        unescape ('\\' :: mark :: digits) = .ok [] ∨
          ∃ character, unescape ('\\' :: mark :: digits) = .ok [character] := by
    rcases unescape_cases mark digits with refused | ⟨character, length, escapes, decoded⟩
    · exact .inl refused
    · refine .inr (.inr ⟨character, ?_⟩)
      rw [decoded, escapes.whole isBody, unescape]
      rfl
  cases isBody with
  | nil => exact .inr (.inl (by rw [unescape]))
  | @plain content _ noBackslash =>
      refine .inr (.inr ⟨content, ?_⟩)
      rw [unescape_plain noBackslash, unescape]
      rfl
  | shortUnicode few all => exact escaped (.shortUnicode few all)
  | longUnicode few all => exact escaped (.longUnicode few all)
  | hexadecimal all => exact escaped (.hexadecimal all)
  | octal few all => exact escaped (.octal few all)
  | escaped noMark noOctal noEnd => exact escaped (.escaped noMark noOctal noEnd)

/-- The text between the quotes. -/
theorem betweenQuotes_closed (quote : Char) (body : List Char) :
    betweenQuotes quote (quote :: (body ++ [quote])) = .ok body := by
  simp [betweenQuotes]

/-- A text that does not end with its quote. -/
theorem betweenQuotes_open
    (noQuote : body.getLast? ≠ some quote) :
    betweenQuotes quote (quote :: body) = .error .endQuote := by
  simp [betweenQuotes, noQuote]

/-- A text ends with an escaped quote if a quote ends it behind its own one. -/
theorem endsEscaped_iff
    (noBackslash : quote ≠ '\\')
    (escaped : body.getLast? = some quote → ['\\', quote] <:+ body) :
    ['\\', quote] <:+ quote :: body ↔ body.getLast? = some quote := by
  rw [List.suffix_cons_iff]
  constructor
  · rintro (same | ⟨former, rfl⟩)
    · exact absurd (List.cons.inj same).1.symm noBackslash
    · simp
  · exact fun isLast => .inr (escaped isLast)

/-- A string with both of its quotes is decoded, or it is refused for something else. -/
theorem string_closed (body : List Char) :
    string ('"' :: (body ++ ['"'])) ≠ .error .endQuote := by
  rw [string_quoted]
  intro isError
  rcases unescape_decodes body with ⟨code, notQuote, refused⟩ | ⟨decoded, isDecoded⟩
  · rw [refused] at isError
    exact notQuote (Except.error.inj isError)
  · rw [isDecoded] at isError
    cases isError

/-- A string without its closing quote is refused, and that is said unless an escaped one ends it. -/
theorem string_open
    (isOpen : Scan.StringBody body ∨ ∃ former, Scan.StringBody former ∧ body = former ++ ['\\']) :
    ∃ code, string ('"' :: body) = .error code ∧
      (code = .endQuote ↔ ¬['\\', '"'] <:+ '"' :: body) := by
  have escaped : body.getLast? = some '"' →
      ∃ former, body = former ++ ['\\', '"'] ∧ Scan.StringBody former := by
    intro isLast
    rcases isOpen with isBody | ⟨former, -, rfl⟩
    · exact isBody.escapedQuote isLast
    · simp at isLast
  rw [endsEscaped_iff (by decide) fun isLast => by
    obtain ⟨former, rfl, -⟩ := escaped isLast
    exact List.suffix_append _ _]
  by_cases isLast : body.getLast? = some '"'
  · obtain ⟨former, rfl, isFormer⟩ := escaped isLast
    obtain ⟨code, notQuote, refused⟩ := unescape_open isFormer
    refine ⟨code, ?_, by simp [notQuote]⟩
    rw [show former ++ ['\\', '"'] = (former ++ ['\\']) ++ ['"'] by simp, string_quoted, refused]
    rfl
  · exact ⟨.endQuote, by rw [string, betweenQuotes_open isLast], by simp [isLast]⟩

-- The text ends with a quote that closes nothing.
example : string "\"a\\\"".toList = .error .badEscape := by cbv

/-- A character with both of its quotes is decoded, or it is refused for something else. -/
theorem character_closed
    (isBody : Scan.CharacterBody body) :
    character ('\'' :: (body ++ ['\''])) ≠ .error .endQuote := by
  rw [character, betweenQuotes_closed]
  dsimp only
  rcases unescape_character isBody with ⟨code, notQuote, refused⟩ | none | ⟨content, one⟩
  · rw [refused]
    exact fun isError => notQuote (Except.error.inj isError)
  · rw [none]
    decide
  · rw [one]
    simp

/-- A character without its closing quote is refused, and that is said unless it is a quote. -/
theorem character_open
    (isOpen : Scan.CharacterBody body ∨ body = ['\\']) :
    ∃ code, character ('\'' :: body) = .error code ∧
      (code = .endQuote ↔ ¬['\\', '\''] <:+ '\'' :: body) := by
  have escaped : body.getLast? = some '\'' → body = ['\\', '\''] := by
    intro isLast
    rcases isOpen with isBody | rfl
    · exact isBody.escapedQuote isLast
    · simp at isLast
  rw [endsEscaped_iff (by decide) fun isLast => by rw [escaped isLast]]
  by_cases isLast : body.getLast? = some '\''
  · rw [escaped isLast]
    exact ⟨.badEscape, by simp [character, betweenQuotes, unescape, escape], by simp⟩
  · exact ⟨.endQuote, by rw [character, betweenQuotes_open isLast], by simp [isLast]⟩

end Literal

namespace Scan

variable {constants : Constants} {rest : List Char} {text : String}

/-- A string that is scanned is closed, or it is left open. -/
theorem scanned_string_cases
    (isScanned : (TokenKind.string, text) = scanned constants rest) :
    ∃ body,
      StringBody body ∧ text.toList = '"' :: (body ++ ['"']) ∨
        (StringBody body ∨ ∃ former, StringBody former ∧ body = former ++ ['\\']) ∧
          text.toList = '"' :: body := by
  cases rest with
  | nil => cases isScanned
  | cons first rest =>
      obtain ⟨isString, isText⟩ := Prod.mk.inj isScanned
      have kinds := tokenKind_cases constants first (tokenText first rest)
      obtain rfl : first = '"' := by simpa [← isString] using kinds
      have spelled : text.toList = '"' :: rest.take (stringTail rest) := by
        rw [isText, tokenText, String.toList_ofList]
        rfl
      obtain ⟨body, isBody, taken | taken | taken⟩ := stringTail_cases rest
      · exact ⟨body, .inl ⟨isBody, by rw [spelled, taken]⟩⟩
      · exact ⟨body, .inr ⟨.inl isBody, by rw [spelled, taken]⟩⟩
      · exact ⟨_, .inr ⟨.inr ⟨body, isBody, rfl⟩, by rw [spelled, taken]⟩⟩

/-- A character that is scanned is closed, or it is left open. -/
theorem scanned_character_cases
    (isScanned : (TokenKind.character, text) = scanned constants rest) :
    ∃ body,
      CharacterBody body ∧ text.toList = '\'' :: (body ++ ['\'']) ∨
        (CharacterBody body ∨ body = ['\\']) ∧ text.toList = '\'' :: body := by
  cases rest with
  | nil => cases isScanned
  | cons first rest =>
      obtain ⟨isCharacter, isText⟩ := Prod.mk.inj isScanned
      have kinds := tokenKind_cases constants first (tokenText first rest)
      obtain rfl : first = '\'' := by simpa [← isCharacter] using kinds
      have spelled : text.toList = '\'' :: rest.take (characterTail rest) := by
        rw [isText, tokenText, String.toList_ofList]
        rfl
      obtain ⟨body, ⟨isBody, taken⟩ | ⟨isOpen, taken⟩⟩ := characterTail_cases rest
      · exact ⟨body, .inl ⟨isBody, by rw [spelled, taken]⟩⟩
      · exact ⟨body, .inr ⟨isOpen, by rw [spelled, taken]⟩⟩

end Scan

/--
A string or a character that the scan closed is never said to lack its quote.
One that it left open is refused, and the quote is said to be missing unless
the text ends with an escaped one.
-/
theorem TokenList.ofSource_literal_endings
    {constants : Constants}
    {source : String}
    {index : Nat}
    {token : Token}
    (here : (ofSource constants source).tokens[index]? = some token) :
    (token.kind = .string →
      (token.Closed → Literal.string token.text.toList ≠ .error .endQuote) ∧
        (¬token.Closed → ∃ code, Literal.string token.text.toList = .error code ∧
          (code = .endQuote ↔ ¬['\\', '"'] <:+ token.text.toList))) ∧
      (token.kind = .character →
        (token.Closed → Literal.character token.text.toList ≠ .error .endQuote) ∧
          (¬token.Closed → ∃ code, Literal.character token.text.toList = .error code ∧
            (code = .endQuote ↔ ¬['\\', '\''] <:+ token.text.toList))) := by
  obtain ⟨rest, -, isScanned⟩ := ofSource_scanned here
  constructor
  · intro isString
    have noCharacter : token.kind ≠ .character := by simp [isString]
    rw [isString] at isScanned
    obtain ⟨body, ⟨isBody, spelled⟩ | ⟨isOpen, spelled⟩⟩ := Scan.scanned_string_cases isScanned
    · have closed : token.Closed :=
        ⟨fun _ => ⟨body, isBody, spelled⟩, fun kind => absurd kind noCharacter⟩
      rw [spelled]
      exact ⟨fun _ => Literal.string_closed body, fun isOpen => absurd closed isOpen⟩
    · rw [spelled]
      refine ⟨fun closed => ?_, fun _ => Literal.string_open isOpen⟩
      obtain ⟨other, -, isOther⟩ := closed.string isString
      rw [← spelled, isOther]
      exact Literal.string_closed other
  · intro isCharacter
    have noString : token.kind ≠ .string := by simp [isCharacter]
    rw [isCharacter] at isScanned
    obtain ⟨body, ⟨isBody, spelled⟩ | ⟨isOpen, spelled⟩⟩ := Scan.scanned_character_cases isScanned
    · have closed : token.Closed :=
        ⟨fun kind => absurd kind noString, fun _ => ⟨body, isBody, spelled⟩⟩
      rw [spelled]
      exact ⟨fun _ => Literal.character_closed isBody, fun isOpen => absurd closed isOpen⟩
    · rw [spelled]
      refine ⟨fun closed => ?_, fun _ => Literal.character_open isOpen⟩
      obtain ⟨other, isBody, isOther⟩ := closed.character isCharacter
      rw [← spelled, isOther]
      exact Literal.character_closed isBody

end BotScript
