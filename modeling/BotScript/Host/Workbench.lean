import BotScript.Host.Standard

namespace BotScript

/-!
# A host for trying programs out

Functions that print, assert, fail and stop, an overloaded function, and
classes with fields of every visibility, one of them derived from another and
one with a parent that does not exist.
-/

namespace Workbench

/-- Check for one number. -/
def checkNumber (result : Ty) (types : List Ty) : Except ErrorCode Ty := do
  ArgumentCheck.numeric types 0
  ArgumentCheck.count types 1 1
  pure result

/-- Add the text of the argument, or an empty text if there is none, to the log. -/
def print : Native where
  name := "print"
  check types := do
    ArgumentCheck.count types 1 1
    if types.head? == some .void then throw .voidParameter
    pure .void
  run call := do
    let world ← get
    let text ←
      match call.arguments with
      | value :: _ =>
          Action.ofChecked (world.heap.valueText value ((call.types.head?).getD .string))
      | [] => pure ""
    Action.modifyHost fun host => { host with log := host.log ++ [text] }
    pure .void

/-- Demand that the argument is true. -/
def assert : Native where
  name := "ASSERT"
  check types := do
    ArgumentCheck.count types 1 1
    if types.head? != some .boolean then throw .badType1
    pure .boolean
  run call :=
    match call.arguments with
    | .bool true :: _ => pure (.bool true)
    | _ => Action.fail .badParameter

/-- Fail with the error whose number is given; other numbers are returned. -/
def failWith : Native where
  name := "fail"
  check := checkNumber .int
  run call := do
    let value ← call.int 0
    if value == value.toInt32.toInt64 then
      match ErrorCode.ofNumber? value.toInt32 with
      | some code => Action.fail code
      | none => pure (.int value)
    else pure (.int value)

/-- Describe a number. -/
def kindOfNumber : Native where
  name := "kind"
  check types := do
    ArgumentCheck.count types 1 1
    ArgumentCheck.numeric types 0
    pure .string
  run call := do
    let value ← call.int 0
    pure (.str ("number " ++ toString value.toInt))

/-- Describe anything else. -/
def kindOfOther : Native where
  name := "kind"
  check types := do
    ArgumentCheck.count types 1 2
    pure .string
  run call := do
    let text ← call.string 0
    pure (.str ("other " ++ text))

/-- Ask the running program to stop. -/
def halt : Native where
  name := "halt"
  check types := do
    ArgumentCheck.count types 0 0
    pure .void
  run _ := do
    Action.modifyHost fun host => { host with stopRequested := true }
    pure .void

/-- A method that sets the field `id`. -/
def setId (name : String) : Native where
  name := name
  check := checkNumber .void
  run call := do
    let value ← call.int 0
    Action.assign (← call.fieldCell "id") (.int value)
    pure .void

/-- The method that reads the field `id`. -/
def getId : Native where
  name := "get"
  check types := do
    ArgumentCheck.count types 0 0
    pure .int
  run call := do
    let cell ← call.fieldCell "id"
    let world ← get
    Action.ofChecked (Checked.ofExcept (world.heap.read cell))

/-- The fields of the base class. -/
def thingFields : List HostField :=
  [⟨"id", .int, .publicAccess⟩, ⟨"tag", .string, .protectedAccess⟩,
   ⟨"data", .array .int, .publicAccess⟩, ⟨"secret", .long, .privateAccess⟩,
   ⟨"late", .boolean, .publicAccess⟩]

/-- A registry with the functions and classes of this host added. -/
def extend (registry : Registry) : Registry :=
  let functions := [print, assert, failWith, kindOfNumber, kindOfOther, halt].foldl
    Registry.addFunction registry
  ((functions.addClass "Thing" none thingFields [setId "Thing", getId]).addClass
    "SubThing" (some "Thing") [⟨"extra", .float, .publicAccess⟩] [setId "set"]).addClass
    "Orphan" (some "Missing") [] []

end Workbench

end BotScript
