import BotScript.Host.Registry
import BotScript.Text.Blank
import BotScript.Text.LetterCase

namespace BotScript

/-!
# Text functions

Positions and lengths count characters.  Counts outside a text are brought to
the nearest one inside it and are never an error.
-/

namespace StringLibrary

/-- A count brought into the range from zero to the length of a text. -/
def clamp (count : Int64) (text : List Char) : Nat :=
  min count.toInt.toNat text.length

/-- The first characters of a text. -/
def left (text : List Char) (count : Int64) : List Char :=
  text.take (clamp count text)

/-- The last characters of a text. -/
def right (text : List Char) (count : Int64) : List Char :=
  text.drop (text.length - clamp count text)

/-- The characters of a text from a position on. -/
def suffixFrom (text : List Char) (start : Int64) : List Char :=
  text.drop (clamp start text)

/-- A number of characters of a text from a position on. -/
def middle (text : List Char) (start count : Int64) : List Char :=
  (suffixFrom text start).take (clamp count text)

/-- The first position at which a list occurs in another. -/
def find? {α : Type} [BEq α] (needle : List α) : List α → Option Nat
  | [] => if needle.isEmpty then some 0 else none
  | first :: rest =>
      if needle.isPrefixOf (first :: rest) then some 0
      else (find? needle rest).map (· + 1)

/--
The number of characters in front of the first place at which a text occurs in
another.  The place is searched for among bytes; the bytes in front of it are
read as a text, whose characters are counted.
-/
def position? (text needle : String) : Option Nat := do
  let bytes := text.toUTF8.toList
  let byte ← find? needle.toUTF8.toList bytes
  let front ← String.fromUTF8? ⟨(bytes.take byte).toArray⟩
  pure front.length

/-- The number a text starts with, behind blanks, rounded to single precision. -/
def leadingNumber (text : List Char) : Double :=
  match Decimal.readLeading? (text.dropWhile isWhiteSpace) with
  | some (decimal, _) => decimal.toDouble.toSingle
  | none => Double.zero

/-- Check for one text. -/
def checkText (result : Ty) (types : List Ty) : Except ErrorCode Ty := do
  ArgumentCheck.string types 0
  ArgumentCheck.count types 1 1
  pure result

/-- Check for a text and a number. -/
def checkTextNumber (types : List Ty) : Except ErrorCode Ty := do
  ArgumentCheck.string types 0
  ArgumentCheck.numeric types 1
  ArgumentCheck.count types 2 2
  pure .string

/-- Check for a text and one or two numbers. -/
def checkTextNumbers (types : List Ty) : Except ErrorCode Ty := do
  ArgumentCheck.string types 0
  ArgumentCheck.numeric types 1
  if 2 < types.length then ArgumentCheck.numeric types 2
  ArgumentCheck.count types 2 3
  pure .string

/-- Check for two texts. -/
def checkTexts (types : List Ty) : Except ErrorCode Ty := do
  ArgumentCheck.string types 0
  ArgumentCheck.string types 1
  ArgumentCheck.count types 2 2
  pure .int

/-- The number of characters of a text. -/
def strlen : Native where
  name := "strlen"
  check := checkText .int
  run call := do
    let text ← call.string 0
    pure (.int (Int64.ofNat text.length))

/-- The first characters of a text. -/
def strleft : Native where
  name := "strleft"
  check := checkTextNumber
  run call := do
    let text ← call.string 0
    let count ← call.int 1
    pure (.str (String.ofList (left text.toList count)))

/-- The last characters of a text. -/
def strright : Native where
  name := "strright"
  check := checkTextNumber
  run call := do
    let text ← call.string 0
    let count ← call.int 1
    pure (.str (String.ofList (right text.toList count)))

/-- The characters in the middle of a text. -/
def strmid : Native where
  name := "strmid"
  check := checkTextNumbers
  run call := do
    let text ← call.string 0
    let start ← call.int 1
    if 2 < call.arguments.length then
      let count ← call.int 2
      pure (.str (String.ofList (middle text.toList start count)))
    else pure (.str (String.ofList (suffixFrom text.toList start)))

/-- The number a text starts with. -/
def strval : Native where
  name := "strval"
  check := checkText .float
  run call := do
    let text ← call.string 0
    pure (.float (leadingNumber text.toList))

/-- The position of a text in another, or `-1`. -/
def strfind : Native where
  name := "strfind"
  check := checkTexts
  run call := do
    let text ← call.string 0
    let needle ← call.string 1
    match position? text needle with
    | some position => pure (.int (Int64.ofNat position))
    | none => pure (.int (-1))

/-- The upper-case form of a text. -/
def strupper : Native where
  name := "strupper"
  check := checkText .string
  run call := do
    let text ← call.string 0
    pure (.str (LetterCase.upperText text))

/-- The lower-case form of a text. -/
def strlower : Native where
  name := "strlower"
  check := checkText .string
  run call := do
    let text ← call.string 0
    pure (.str (LetterCase.lowerText text))

/-- All text functions, in order of registration. -/
def natives : List Native :=
  [strlen, strleft, strright, strmid, strval, strfind, strupper, strlower]

end StringLibrary

end BotScript
