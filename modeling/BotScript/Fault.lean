import BotScript.ErrorCode

namespace BotScript

/-!
# Faults

An operation on values either delivers its result, reports an error that
scripts can catch, or meets a situation from which no run can continue.
-/

/-- Why an operation delivers no result. -/
inductive Fault where
  /-- An error that scripts can catch. -/
  | error (code : ErrorCode)
  /-- The text form of an array or instance that contains itself. -/
  | endlessText
  /-- The text form of a value reads the very cell that is being written. -/
  | cellInUse
  /-- A node refers to a part that the program does not have. -/
  | missingPart
  deriving Repr, DecidableEq, Inhabited

/-- The result of an operation that can fail with a fault. -/
abbrev Checked := Except Fault

/-- Fail with an error that scripts can catch. -/
def Checked.fail {α : Type} (code : ErrorCode) : Checked α :=
  .error (.error code)

/-- The result of an operation that only reports errors. -/
def Checked.ofExcept {α : Type} : Except ErrorCode α → Checked α
  | .ok value => .ok value
  | .error code => .error (.error code)

end BotScript
