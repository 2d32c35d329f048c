import BotScript.Proofs.Numerals
import BotScript.Proofs.StableScans
import BotScript.Proofs.LexicalGrammar
import Mathlib.Data.List.TakeWhile

namespace BotScript

/-!
# String literals

Every text can be written between quotes, each character in one of several ways.
The scanner skips one character behind a backslash where the decoder reads a
whole escape sequence, but both stay in step: what is left of a sequence is digits,
which say nothing to the scanner.
-/

/-- The marks that stand for a character behind a backslash. -/
def escapeMarks : List (Char × Char) :=
  [('\\', '\\'), ('"', '"'), ('\'', '\''), ('?', '?'), ('n', '\n'), ('t', '\t'), ('r', '\r'),
   ('a', '\x07'), ('b', '\x08'), ('v', '\x0b'), ('f', '\x0c')]

/-- The ways to write a character between the quotes of a string. -/
inductive WritesCharacter (character : Char) : List Char → Prop where
  | raw : character ∉ ['\\', '"', '\n', '\r'] → WritesCharacter character [character]
  | marked {mark : Char} :
      (mark, character) ∈ escapeMarks → WritesCharacter character ['\\', mark]
  | octal {digits : List Char} :
      character.toNat ≤ 0xFF → digits.length = 3 → Numeral 8 digits character.toNat →
      WritesCharacter character ('\\' :: digits)
  | shortUnicode {digits : List Char} :
      digits.length = 4 → Numeral 16 digits character.toNat →
      WritesCharacter character ('\\' :: 'u' :: digits)
  | longUnicode {digits : List Char} :
      digits.length = 8 → Numeral 16 digits character.toNat →
      WritesCharacter character ('\\' :: 'U' :: digits)

/-- The ways to write a text between quotes, where each character is written on its own. -/
inductive WritesText : List Char → List Char → Prop where
  | nil : WritesText [] []
  | cons {character : Char} {form text body : List Char} :
      WritesCharacter character form → WritesText text body →
      WritesText (character :: text) (form ++ body)

/-- Every text can be written. -/
theorem exists_writesText (text : List Char) : ∃ body, WritesText text body := by
  induction text with
  | nil => exact ⟨[], .nil⟩
  | cons character text inductionHypothesis =>
      obtain ⟨body, isBody⟩ := inductionHypothesis
      have fits : character.toNat < 16 ^ 8 :=
        Nat.lt_of_lt_of_le character.val.toNat_lt (by decide)
      obtain ⟨digits, length, isNumeral⟩ := Literal.exists_numeral (by decide) (Nat.le_refl 16) fits
      exact ⟨_, .cons (.longUnicode length isNumeral) isBody⟩

namespace Literal

variable {character : Char} {digits rest : List Char}

/-! ## Decoding -/

/-- A character that no backslash precedes stands for itself. -/
theorem unescape_plain
    (plain : character ≠ '\\')
    (rest : List Char) :
    unescape (character :: rest) = (unescape rest).map (character :: ·) := by
  rw [unescape, if_neg (by simpa using plain)]

/-- An escape sequence stands for a character. -/
theorem unescape_escape
    {form : List Char}
    (isEscape : escape (form ++ rest) = .ok (character, form.length)) :
    unescape ('\\' :: form ++ rest) = (unescape rest).map (character :: ·) := by
  rw [List.cons_append, unescape, if_pos (beq_self_eq_true _), isEscape]
  simp

/-- The digits at the start of a text, as many as are asked for. -/
theorem takeWhile_take
    {test : Char → Bool}
    (all : ∀ digit ∈ digits, test digit = true)
    (rest : List Char) :
    ((digits ++ rest).take digits.length).takeWhile test = digits := by
  rw [List.take_left]
  exact List.takeWhile_eq_self_iff.mpr all

/-- A character is found by its code point. -/
theorem character?_toNat (character : Char) : character? character.toNat = some character := by
  have isValid : character.toNat.isValidChar := character.valid
  rw [character?, if_pos isValid, Char.ofNat_toNat]

/-- An octal digit is no mark of an escape. -/
theorem simpleEscape?_digit
    {value : Nat}
    (isDigit : IsDigitOf 8 character value) :
    simpleEscape? character = none := by
  obtain ⟨less, isDigit⟩ := isDigit
  interval_cases value <;> simp at isDigit <;> subst isDigit <;> rfl

/-- The escape of a mark. -/
theorem escape_marked
    {mark : Char}
    (isMark : (mark, character) ∈ escapeMarks)
    (rest : List Char) :
    escape ([mark] ++ rest) = .ok (character, [mark].length) := by
  have listed : ∀ pair ∈ escapeMarks, simpleEscape? pair.1 = some pair.2 := by decide
  rw [List.singleton_append, escape, listed _ isMark]
  rfl

/-- An octal escape of three digits. -/
theorem escape_octal
    (small : character.toNat ≤ 0xFF)
    (length : digits.length = 3)
    (isNumeral : Numeral 8 digits character.toNat)
    (rest : List Char) :
    escape (digits ++ rest) = .ok (character, digits.length) := by
  have places := exists_place isNumeral
  have all : ∀ digit ∈ digits, Scan.isOctalDigit digit = true := fun digit isThere =>
    isOctalDigit_iff.mpr (places digit isThere)
  have taken := takeWhile_take all rest
  have isValue := (digitsFrom?_zero (by decide)).mpr isNumeral
  obtain ⟨first, further, rfl⟩ := List.exists_cons_of_length_pos (show 0 < digits.length by omega)
  obtain ⟨place, isDigit⟩ := places first List.mem_cons_self
  rw [length, List.cons_append] at taken
  rw [List.cons_append, escape]
  simp only [simpleEscape?_digit isDigit, all first List.mem_cons_self, if_true, octalEscape, taken,
    isValue, Option.getD_some, Nat.not_lt.mpr small, if_false, Char.ofNat_toNat]

/-- A universal escape with all of its digits. -/
theorem universalEscape_digits
    (isNumeral : Numeral 16 digits character.toNat)
    (rest : List Char) :
    universalEscape digits.length (digits ++ rest) = .ok (character, digits.length) := by
  have all : ∀ digit ∈ digits, Scan.isHexDigit digit = true := fun digit isThere =>
    isHexDigit_iff.mpr (exists_place isNumeral digit isThere)
  have isValue := (digitsFrom?_zero (Nat.le_refl 16)).mpr isNumeral
  simp only [universalEscape, takeWhile_take all rest, Nat.lt_irrefl, if_false, isValue,
    Option.bind_some, character?_toNat]

/-- What is written for a character is decoded to it. -/
theorem unescape_writes
    {form : List Char}
    (writes : WritesCharacter character form)
    (rest : List Char) :
    unescape (form ++ rest) = (unescape rest).map (character :: ·) := by
  cases writes with
  | raw plain =>
      refine unescape_plain (fun isBackslash => plain ?_) rest
      simp [isBackslash]
  | marked isMark => exact unescape_escape (escape_marked isMark rest)
  | octal small length isNumeral => exact unescape_escape (escape_octal small length isNumeral rest)
  | @shortUnicode digits length isNumeral =>
      have isEscape := universalEscape_digits isNumeral rest
      rw [length] at isEscape
      have whole : escape ('u' :: digits ++ rest) = .ok (character, ('u' :: digits).length) := by
        rw [List.cons_append, List.length_cons, length]
        exact congrArg (Except.map _) isEscape
      exact unescape_escape whole
  | @longUnicode digits length isNumeral =>
      have isEscape := universalEscape_digits isNumeral rest
      rw [length] at isEscape
      have whole : escape ('U' :: digits ++ rest) = .ok (character, ('U' :: digits).length) := by
        rw [List.cons_append, List.length_cons, length]
        exact congrArg (Except.map _) isEscape
      exact unescape_escape whole

/-- What is written for a text is decoded to it. -/
theorem unescape_writesText
    {text body : List Char}
    (writes : WritesText text body) :
    unescape body = .ok text := by
  induction writes with
  | nil => rw [unescape]
  | cons writes _ inductionHypothesis =>
      rw [unescape_writes writes, inductionHypothesis]
      rfl

/-- A string with both of its quotes. -/
theorem string_quoted (body : List Char) :
    string ('"' :: (body ++ ['"'])) = (unescape body).map String.ofList := by
  simp [string, betweenQuotes]

end Literal

namespace Scan

variable {character : Char} {digits form body text rest : List Char}

/-! ## Scanning -/

/-- A hexadecimal digit is neither a quote nor a backslash, and it ends no line. -/
theorem plain_of_isHexDigit
    (isDigit : isHexDigit character = true) :
    character ≠ '"' ∧ character ≠ '\\' ∧ isLineEnd character = false := by
  refine ⟨?_, ?_, eq_false_of_ne_true fun isEnd => ?_⟩
  · rintro rfl
    exact absurd isDigit (by decide)
  · rintro rfl
    exact absurd isDigit (by decide)
  · simp only [isLineEnd, Bool.or_eq_true, beq_iff_eq] at isEnd
    rcases isEnd with rfl | rfl <;> exact absurd isDigit (by decide)

/-- Hexadecimal digits are plain characters of a string. -/
theorem StringBody.appendDigits
    (all : ∀ digit ∈ digits, isHexDigit digit = true)
    (isBody : StringBody rest) :
    StringBody (digits ++ rest) := by
  induction digits with
  | nil => exact isBody
  | cons first digits inductionHypothesis =>
      obtain ⟨isDigit, all⟩ := List.forall_mem_cons.mp all
      obtain ⟨noQuote, noBackslash, noLineEnd⟩ := plain_of_isHexDigit isDigit
      exact .plain noQuote noBackslash noLineEnd (inductionHypothesis all)

/-- What is written for a character can stand between the quotes of a string. -/
theorem StringBody.writes
    (writes : WritesCharacter character form)
    (isBody : StringBody rest) :
    StringBody (form ++ rest) := by
  cases writes with
  | raw plain =>
      simp only [List.mem_cons, List.not_mem_nil, or_false, not_or] at plain
      obtain ⟨noBackslash, noQuote, noLineFeed, noReturn⟩ := plain
      exact .plain noQuote noBackslash (by simp [isLineEnd, noLineFeed, noReturn]) isBody
  | marked isMark =>
      have listed : ∀ pair ∈ escapeMarks, isLineEnd pair.1 = false := by decide
      exact .escaped (listed _ isMark) isBody
  | @octal digits small length isNumeral =>
      have all : ∀ digit ∈ digits, isHexDigit digit = true := fun digit isThere =>
        Literal.isHexDigit_of_isOctalDigit
          (Literal.isOctalDigit_iff.mpr (Literal.exists_place isNumeral digit isThere))
      obtain ⟨first, further, rfl⟩ :=
        List.exists_cons_of_length_pos (show 0 < digits.length by omega)
      obtain ⟨isDigit, all⟩ := List.forall_mem_cons.mp all
      exact .escaped (plain_of_isHexDigit isDigit).2.2 (.appendDigits all isBody)
  | @shortUnicode digits length isNumeral =>
      refine .escaped rfl (.appendDigits (fun digit isThere => ?_) isBody)
      exact Literal.isHexDigit_iff.mpr (Literal.exists_place isNumeral digit isThere)
  | @longUnicode digits length isNumeral =>
      refine .escaped rfl (.appendDigits (fun digit isThere => ?_) isBody)
      exact Literal.isHexDigit_iff.mpr (Literal.exists_place isNumeral digit isThere)

/-- What is written for a text can stand between the quotes of a string. -/
theorem stringBody_of_writesText
    (writes : WritesText text body) :
    StringBody body := by
  induction writes with
  | nil => exact .nil
  | cons writes _ inductionHypothesis => exact .writes writes inductionHypothesis

/-- A string ends with the quote that closes it, whatever stands behind it. -/
theorem scanned_string
    (constants : Constants)
    (isBody : StringBody body)
    (behind : List Char) :
    scanned constants ('"' :: (body ++ '"' :: behind)) =
      (.string, String.ofList ('"' :: (body ++ ['"']))) := by
  have length : tokenTail '"' (body ++ '"' :: behind) = body.length + 1 :=
    stringTail_closed isBody behind
  have taken : (body ++ '"' :: behind).take (body.length + 1) = body ++ ['"'] := by
    rw [← List.singleton_append, ← List.append_assoc]
    exact List.take_left' (by simp)
  rw [scanned, tokenText, length, taken]
  rfl

end Scan

/--
Every text can be written as a string.  However each of its characters is
written, the string is scanned as one token wherever a token starts, whatever
follows it, and it is decoded to the text.
-/
theorem TokenList.ofSource_reads_strings (constants : Constants) (text : String) :
    (∃ body, WritesText text.toList body) ∧
      ∀ (body behind : List Char) (source before : String) (index : Nat) (token : Token),
        WritesText text.toList body →
        source.toList = before.toList ++ '"' :: (body ++ '"' :: behind) →
        (ofSource constants source).tokens[index]? = some token →
        (ofSource constants source).leading ++
            spelled ((ofSource constants source).tokens.toList.take index) = before →
        token.kind = .string ∧ token.text.toList = '"' :: (body ++ ['"']) ∧
          Literal.string token.text.toList = .ok text := by
  refine ⟨exists_writesText _, ?_⟩
  intro body behind source before index token writes whole here starts
  obtain ⟨rest, cut, isScanned⟩ := ofSource_scanned here
  rw [starts, whole] at cut
  obtain rfl := List.append_cancel_left cut
  rw [Scan.scanned_string constants (Scan.stringBody_of_writesText writes) behind] at isScanned
  obtain ⟨kind, isText⟩ := Prod.mk.inj isScanned
  have spelledText : token.text.toList = '"' :: (body ++ ['"']) := by
    rw [isText, String.toList_ofList]
  refine ⟨kind, spelledText, ?_⟩
  rw [spelledText, Literal.string_quoted, Literal.unescape_writesText writes]
  exact congrArg Except.ok String.ofList_toList

/-- A null character in front of a digit, a letter of two bytes and a line feed. -/
theorem TokenList.ofSource_reads_strings_mixed :
    let list := ofSource .empty "x=\"\\0007é\\u000A\"7"
    ∃ token,
      list.tokens[2]? = some token ∧ token.kind = .string ∧
        token.text.toList = "\"\\0007é\\u000A\"".toList ∧
          Literal.string token.text.toList = .ok "\x007é\n" := by
  intro list
  have facts :
      (list.tokens[2]?).isSome = true ∧
        list.leading ++ spelled (list.tokens.toList.take 2) = "x=" := by
    decide +kernel
  obtain ⟨isThere, starts⟩ := facts
  obtain ⟨token, here⟩ := Option.isSome_iff_exists.mp isThere
  have null : WritesCharacter '\x00' "\\000".toList :=
    .octal (by decide) rfl ((Literal.digitsFrom?_zero (by decide)).mp rfl)
  have lineFeed : WritesCharacter '\n' "\\u000A".toList :=
    .shortUnicode rfl ((Literal.digitsFrom?_zero (by decide)).mp rfl)
  have writes : WritesText "\x007é\n".toList "\\0007é\\u000A".toList :=
    .cons null (.cons (.raw (by decide)) (.cons (.raw (by decide)) (.cons lineFeed .nil)))
  obtain ⟨-, reads⟩ := ofSource_reads_strings .empty "\x007é\n"
  exact ⟨token, here, reads _ ['7'] _ "x=" 2 token writes (by decide) here starts⟩

end BotScript
