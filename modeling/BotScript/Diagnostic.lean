import BotScript.ErrorCode
import BotScript.Span

namespace BotScript

/-!
# Compile errors, exceptions and reports

A compilation stops at its first error, which is anchored to a token span.  An
exception raised while a program runs carries a number and not an
`ErrorCode`, because scripts may throw any positive integer.
-/

/-- The first error of a failed compilation. -/
structure CompileError where
  code : ErrorCode
  span : Span
  deriving Repr, DecidableEq, Inhabited

/-- An exception raised during execution. -/
structure RuntimeError where
  code : Int32
  span : Span
  deriving Repr, DecidableEq, Inhabited

/-- The one-line form of a compile error. -/
def CompileError.text (error : CompileError) : String :=
  "error " ++ toString error.code.number.toInt ++ " (" ++ error.code.name ++ ") at "
    ++ error.span.text ++ ": " ++ error.code.message

namespace RuntimeError

/-- The exception that reports a known error. -/
def ofCode (code : ErrorCode) (span : Span) : RuntimeError :=
  ⟨code.number, span⟩

/-- The known error an exception reports, if its number names one. -/
def known? (error : RuntimeError) : Option ErrorCode :=
  ErrorCode.ofNumber? error.code

/-- The one-line form of an exception. -/
def text (error : RuntimeError) : String :=
  match error.known? with
  | some code =>
      "runtime error " ++ toString error.code.toInt ++ " (" ++ code.name ++ ") at "
        ++ error.span.text ++ ": " ++ code.message
  | none =>
      "uncaught exception " ++ toString error.code.toInt ++ " at " ++ error.span.text

end RuntimeError

/-- The heading and the place of an error over its source text. -/
structure Report where
  heading : String
  line : Nat
  column : Nat
  deriving Repr, DecidableEq, Inhabited

namespace Report

/-- The heading line of a report; the number has two digits at least. -/
def headingLine (code : Int32) (message : String) : String :=
  let digits := toString code.toInt
  let padded := if digits.length < 2 then "0" ++ digits else digits
  "[" ++ padded ++ "] Error: " ++ message

/-- Whether a character ends a line. -/
def isLineEnd (character : Char) : Bool :=
  [0x0A, 0x0B, 0x0C, 0x0D, 0x85, 0x2028, 0x2029].contains character.toNat

/--
The offsets at which the lines behind the first one start.  A carriage return
and a line feed end a line together, and no line starts at the end of the text.
-/
def lineStarts : Nat → List Char → List Nat
  | _, [] => []
  | _, [_] => []
  | offset, '\r' :: '\n' :: rest =>
      if rest.isEmpty then [] else (offset + 2) :: lineStarts (offset + 2) rest
  | offset, first :: second :: rest =>
      if isLineEnd first then (offset + 1) :: lineStarts (offset + 1) (second :: rest)
      else lineStarts (offset + 1) (second :: rest)

/-- The line and column, both counted from one, at which an offset stands. -/
def position (source : String) (start : UInt32) : Nat × Nat :=
  let offset := min start.toNat source.length
  let before := (lineStarts 0 source.toList).filter fun line => line ≤ offset
  (before.length + 1, offset - before.getLast?.getD 0 + 1)

/-- A report about a number and its message at a span of the source. -/
def ofMessage (source : String) (code : Int32) (message : String) (span : Span) : Report :=
  let (line, column) := position source span.start
  ⟨headingLine code message, line, column⟩

/-- The report of a compile error. -/
def ofCompileError (source : String) (error : CompileError) : Report :=
  ofMessage source error.code.number error.code.message error.span

/-- The report of an exception. -/
def ofRuntimeError (source : String) (error : RuntimeError) : Report :=
  let message :=
    match error.known? with
    | some code => code.message
    | none => "uncaught exception"
  ofMessage source error.code message error.span

/-- The place of a report inside the file with the given name. -/
def location (report : Report) (file : String) : String :=
  file ++ ":" ++ toString report.line ++ ":" ++ toString report.column

end Report

end BotScript
