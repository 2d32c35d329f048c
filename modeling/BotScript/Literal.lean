import BotScript.ErrorCode
import BotScript.Number.Decimal
import BotScript.Token.Scan

namespace BotScript

/-!
# Literals

The value of a number, string or character token.  Scanning keeps malformed
literals as tokens, so this is where they are refused.
-/

/-- The value of a number token. -/
inductive NumberLiteral where
  | int (value : Int64)
  | float (value : Double)
  deriving Repr, DecidableEq, Inhabited

namespace Literal

/-- The value of a digit in a base up to sixteen. -/
def digitValue? (base : Nat) (character : Char) : Option Nat :=
  let value :=
    if character.isDigit then some (character.toNat - '0'.toNat)
    else if 'a' ≤ character && character ≤ 'f' then some (character.toNat - 'a'.toNat + 10)
    else if 'A' ≤ character && character ≤ 'F' then some (character.toNat - 'A'.toNat + 10)
    else none
  value.filter (· < base)

/-- The value of a list of digits in a base, continuing from a value. -/
def digitsFrom? (base : Nat) (value : Nat) : List Char → Option Nat
  | [] => some value
  | first :: rest =>
      match digitValue? base first with
      | some digit => digitsFrom? base (value * base + digit) rest
      | none => none

/-- The value of a non-empty numeral in a base; a plus sign may stand in front. -/
def numeral? (base : Nat) (text : List Char) : Option Nat :=
  let digits :=
    match text with
    | '+' :: rest => rest
    | rest => rest
  if digits.isEmpty then none else digitsFrom? base 0 digits

/-- The 64-bit integer a signed decimal numeral stands for. -/
def integer? (text : List Char) : Option Int64 :=
  let value? : Option Int :=
    match text with
    | '-' :: digits =>
        if digits.isEmpty then none else (digitsFrom? 10 0 digits).map fun value => -(value : Int)
    | _ => (numeral? 10 text).map fun value => (value : Int)
  match value? with
  | some value =>
      if Int64.minValue.toInt ≤ value && value ≤ Int64.maxValue.toInt then
        some (Int64.ofInt value)
      else none
  | none => none

/--
The value of a numeral with a base mark.  Values below `2 ^ 32` are 32-bit
patterns, so that `0xFFFFFFFF` is `-1`, and larger ones are 64-bit patterns.
-/
def radixNumber (base : Nat) (digits : List Char) : Except ErrorCode NumberLiteral :=
  match numeral? base digits with
  | some value =>
      if value < UInt32.size then .ok (.int (Int32.ofNat value).toInt64)
      else if value < UInt64.size then .ok (.int (Int64.ofNat value))
      else .error .badNumber
  | none => .error .badNumber

/-- The value of a number token. -/
def number (text : List Char) : Except ErrorCode NumberLiteral :=
  match text with
  | '0' :: 'x' :: digits | '0' :: 'X' :: digits => radixNumber 16 digits
  | '0' :: 'b' :: digits | '0' :: 'B' :: digits => radixNumber 2 digits
  | _ =>
      if text.any fun character => character == '.' || character == 'e' || character == 'E' then
        match Decimal.read? text with
        | some decimal => .ok (.float decimal.toDouble)
        | none => .error .badNumber
      else
        match integer? text with
        | some value => .ok (.int value)
        | none => .error .badNumber

/-- The character with a code point, if the code point is a character. -/
def character? (codePoint : Nat) : Option Char :=
  if codePoint.isValidChar then some (Char.ofNat codePoint) else none

/-- The character that a one-letter escape stands for. -/
def simpleEscape? : Char → Option Char
  | '\\' => some '\\'
  | '"' => some '"'
  | '\'' => some '\''
  | '?' => some '?'
  | 'n' => some '\n'
  | 't' => some '\t'
  | 'r' => some '\r'
  | 'a' => some '\x07'
  | 'b' => some '\x08'
  | 'f' => some '\x0c'
  | 'v' => some '\x0b'
  | _ => none

/-- The character of an octal escape, and how many characters it takes. -/
def octalEscape (text : List Char) : Except ErrorCode (Char × Nat) :=
  let digits := (text.take 3).takeWhile Scan.isOctalDigit
  let value := (digitsFrom? 8 0 digits).getD 0
  if 0xFF < value then .error .octalRange else .ok (Char.ofNat value, digits.length)

/-- The character of a hexadecimal escape of any length, and how many characters it takes. -/
def hexEscape (text : List Char) : Except ErrorCode (Char × Nat) :=
  let digits := text.takeWhile Scan.isHexDigit
  if digits.isEmpty then .error .hexDigits
  else
    match (digitsFrom? 16 0 digits).bind character? with
    | some character => .ok (character, digits.length)
    | none => .error .hexRange

/-- The character of a universal escape with a fixed number of hexadecimal digits. -/
def universalEscape (count : Nat) (text : List Char) : Except ErrorCode (Char × Nat) :=
  let digits := (text.take count).takeWhile Scan.isHexDigit
  if digits.length < count then .error .hexDigits
  else
    match (digitsFrom? 16 0 digits).bind character? with
    | some character => .ok (character, count)
    | none => .error .unicodeName

/-- The character of the escape behind a backslash, and how many characters it takes. -/
def escape (text : List Char) : Except ErrorCode (Char × Nat) :=
  match text with
  | [] => .error .badEscape
  | first :: rest =>
      match simpleEscape? first with
      | some character => .ok (character, 1)
      | none =>
          if Scan.isOctalDigit first then octalEscape (first :: rest)
          else if first == 'x' then
            (hexEscape rest).map fun (character, length) => (character, length + 1)
          else if first == 'u' then
            (universalEscape 4 rest).map fun (character, length) => (character, length + 1)
          else if first == 'U' then
            (universalEscape 8 rest).map fun (character, length) => (character, length + 1)
          else .error .badEscape

/-- The text between the quotes of a literal, with its escapes replaced. -/
def unescape (text : List Char) : Except ErrorCode (List Char) :=
  match text with
  | [] => .ok []
  | first :: rest =>
      if first == '\\' then
        match escape rest with
        | .error code => .error code
        | .ok (character, length) => (unescape (rest.drop length)).map (character :: ·)
      else (unescape rest).map (first :: ·)
termination_by text.length
decreasing_by
  · simp only [List.length_drop, List.length_cons]
    omega
  · simp

/-- The text between two equal quotes. -/
def betweenQuotes (quote : Char) (text : List Char) : Except ErrorCode (List Char) :=
  match text with
  | first :: rest =>
      if first == quote && rest.getLast? == some quote then .ok rest.dropLast
      else .error .endQuote
  | [] => .error .endQuote

/-- The value of a string token. -/
def string (text : List Char) : Except ErrorCode String :=
  match betweenQuotes '"' text with
  | .error code => .error code
  | .ok inner => (unescape inner).map String.ofList

/-- The value of a character token. -/
def character (text : List Char) : Except ErrorCode Char :=
  match betweenQuotes '\'' text with
  | .error code => .error code
  | .ok inner =>
      match unescape inner with
      | .error code => .error code
      | .ok [] => .error .charEmpty
      | .ok [character] => .ok character
      | .ok _ => .error .endQuote

end Literal

end BotScript
