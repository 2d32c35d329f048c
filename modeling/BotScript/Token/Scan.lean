import BotScript.Span
import BotScript.Token.Symbol
import BotScript.Token.Constants

namespace BotScript

/-!
# Tokens

A program text is cut into a leading separator and a list of tokens, each
with the separator that follows it.  Scanning never fails: a malformed literal
becomes a token as well, and the compiler rejects it when it decodes it.

The scanners below only measure: each one tells how many characters of the
remaining text belong to the token or the separator at hand.  The text is then
cut at that place, so nothing can be lost.
-/

/-- What kind of lexical unit a token is. -/
inductive TokenKind where
  | symbol (symbol : Symbol)
  | identifier
  | number
  | string
  | character
  | constant (value : Int64)
  | endOfText
  deriving Repr, DecidableEq, Inhabited

/-- One lexical unit with the separator that follows it. -/
structure Token where
  kind : TokenKind
  text : String
  span : Span
  separator : String
  deriving Repr, DecidableEq, Inhabited

/-- The keyword or operator a token is, if it is one. -/
def Token.symbol? (token : Token) : Option Symbol :=
  match token.kind with
  | .symbol symbol => some symbol
  | _ => none

/-- The tokens of a program text; the last one marks the end of the text. -/
structure TokenList where
  source : String
  leading : String
  tokens : Array Token
  deriving Repr, DecidableEq, Inhabited

namespace Scan

/-- Whether a character separates tokens without meaning anything itself. -/
def isBlank (character : Char) : Bool :=
  character == ' ' || character == '\t' || character == '\r' || character == '\n'

/-- Whether a character ends a line. -/
def isLineEnd (character : Char) : Bool :=
  character == '\n' || character == '\r'

/-- Whether a character starts an operator. -/
def isOperatorStart (character : Char) : Bool :=
  [',', ':', '(', ')', '[', ']', '{', '}', '-', '+', '*', '/', '=', ';', '<', '>', '!', '~',
   '^', '|', '&', '%', '.', '?'].contains character

/-- Whether a character ends an identifier. -/
def endsWord (character : Char) : Bool :=
  isBlank character || isOperatorStart character || character == '"' || character == '\''

/-- Whether a character is a hexadecimal digit. -/
def isHexDigit (character : Char) : Bool :=
  character.isDigit || ('a' ≤ character && character ≤ 'f')
    || ('A' ≤ character && character ≤ 'F')

/-- Whether a character is an octal digit. -/
def isOctalDigit (character : Char) : Bool :=
  '0' ≤ character && character ≤ '7'

/-- Whether a character is a binary digit. -/
def isBinaryDigit (character : Char) : Bool :=
  character == '0' || character == '1'

/-- The number of leading characters that satisfy a test. -/
def runLength (test : Char → Bool) (text : List Char) : Nat :=
  (text.takeWhile test).length

/-- Where a separator scan stands: between comments, in a line comment or in a block comment. -/
inductive SeparatorPlace where
  | between
  | lineComment
  | blockComment
  deriving Repr, DecidableEq

/-- The length of the blanks and comments at the start of the text. -/
def separatorLength : SeparatorPlace → List Char → Nat
  | _, [] => 0
  | .blockComment, '*' :: '/' :: rest => 2 + separatorLength .between rest
  | .blockComment, _ :: rest => 1 + separatorLength .blockComment rest
  | .lineComment, '\n' :: rest => 1 + separatorLength .between rest
  | .lineComment, _ :: rest => 1 + separatorLength .lineComment rest
  | .between, '/' :: '/' :: rest => 2 + separatorLength .lineComment rest
  | .between, '/' :: '*' :: rest => 2 + separatorLength .blockComment rest
  | .between, first :: rest => if isBlank first then 1 + separatorLength .between rest else 0

/--
The length of a string after its opening quote.  A string stops behind the
closing quote, or in front of a line end or the end of the text.
-/
def stringTail : List Char → Nat
  | [] => 0
  | '"' :: _ => 1
  | ['\\'] => 1
  | '\\' :: escaped :: rest => if isLineEnd escaped then 1 else 2 + stringTail rest
  | first :: rest => if isLineEnd first then 0 else 1 + stringTail rest

/-- The length of an escape sequence after its backslash. -/
def escapeTail : List Char → Nat
  | [] => 0
  | first :: rest =>
      if first == 'u' then 1 + min 4 (runLength isHexDigit rest)
      else if first == 'U' then 1 + min 8 (runLength isHexDigit rest)
      else if first == 'x' then 1 + runLength isHexDigit rest
      else if isOctalDigit first then min 3 (runLength isOctalDigit (first :: rest))
      else if isLineEnd first then 0
      else 1

/-- The length of a closing single quote, if the text starts with one. -/
def closingQuote : List Char → Nat
  | '\'' :: _ => 1
  | _ => 0

/--
The length of a character literal after its opening quote: one character, for
which an escape sequence counts, and the closing quote if it is there.
-/
def characterTail : List Char → Nat
  | [] => 0
  | '\'' :: _ => 1
  | '\\' :: rest =>
      let length := escapeTail rest
      1 + length + closingQuote (rest.drop length)
  | first :: rest => if isLineEnd first then 0 else 1 + closingQuote rest

/-- The length of a fraction, which needs a digit behind its point. -/
def fractionLength : List Char → Nat
  | '.' :: digit :: rest => if digit.isDigit then 2 + runLength Char.isDigit rest else 0
  | _ => 0

/-- The length of an exponent, which needs a digit behind its mark and sign. -/
def exponentLength : List Char → Nat
  | mark :: rest =>
      if mark == 'e' || mark == 'E' then
        match rest with
        | sign :: digit :: more =>
            if sign == '+' || sign == '-' then
              if digit.isDigit then 3 + runLength Char.isDigit more else 0
            else if sign.isDigit then 1 + runLength Char.isDigit (sign :: digit :: more)
            else 0
        | [digit] => if digit.isDigit then 2 else 0
        | [] => 0
      else 0
  | [] => 0

/-- The length of a number after its first digit. -/
def numberTail (first : Char) (rest : List Char) : Nat :=
  let decimal :=
    let whole := runLength Char.isDigit rest
    let fraction := fractionLength (rest.drop whole)
    whole + fraction + exponentLength (rest.drop (whole + fraction))
  match rest with
  | mark :: more =>
      if first == '0' && (mark == 'x' || mark == 'X') then 1 + runLength isHexDigit more
      else if first == '0' && (mark == 'b' || mark == 'B') then 1 + runLength isBinaryDigit more
      else decimal
  | [] => decimal

/-- The length of an operator after its first character. -/
def operatorTail (first : Char) (rest : List Char) : Nat :=
  match Symbol.longestOperator? (first :: rest) with
  | some symbol => symbol.text.length - 1
  | none => 0

/-- The length of the token that starts with a character, without that character. -/
def tokenTail (first : Char) (rest : List Char) : Nat :=
  if first == '"' then stringTail rest
  else if first == '\'' then characterTail rest
  else if first.isDigit then numberTail first rest
  else if isOperatorStart first then operatorTail first rest
  else runLength (fun character => !endsWord character) rest

/-- The kind of a word: a keyword, a named constant or an identifier. -/
def wordKind (constants : Constants) (word : String) : TokenKind :=
  match Symbol.keyword? word with
  | some symbol => .symbol symbol
  | none =>
      match constants.get? word with
      | some value => .constant value
      | none => .identifier

/-- The kind of the token that starts with a character and has the given text. -/
def tokenKind (constants : Constants) (first : Char) (text : String) : TokenKind :=
  if first == '"' then .string
  else if first == '\'' then .character
  else if first.isDigit then .number
  else if isOperatorStart first then
    match Symbol.operator? text with
    | some symbol => .symbol symbol
    | none => .identifier
  else wordKind constants text

/-- The tokens of the remaining text, which starts at a byte position and at a token. -/
def tokensFrom
    (constants : Constants) (position : Nat) (text : List Char) :
    List Token :=
  match text with
  | [] => [⟨.endOfText, "", Span.ofRange position position, ""⟩]
  | first :: rest =>
      let length := tokenTail first rest
      let tokenText := String.ofList (first :: rest.take length)
      let behind := rest.drop length
      let separatorSize := separatorLength .between behind
      let separator := String.ofList (behind.take separatorSize)
      let stop := position + tokenText.utf8ByteSize
      ⟨tokenKind constants first tokenText, tokenText, Span.ofRange position stop, separator⟩
        :: tokensFrom constants (stop + separator.utf8ByteSize) (behind.drop separatorSize)
termination_by text.length
decreasing_by
  simp only [List.length_drop, List.length_cons]
  omega

end Scan

namespace TokenList

/-- The tokens of a program text. -/
def ofSource (constants : Constants) (source : String) : TokenList :=
  let text := source.toList
  let leadingSize := Scan.separatorLength .between text
  let leading := String.ofList (text.take leadingSize)
  { source
    leading
    tokens :=
      (Scan.tokensFrom constants leading.utf8ByteSize (text.drop leadingSize)).toArray }

/-- The number of tokens, with the mark of the end. -/
def size (list : TokenList) : Nat :=
  list.tokens.size

end TokenList

end BotScript
