import BotScript.Host.FileLibrary
import BotScript.Host.StringLibrary

namespace BotScript

/-!
# The standard library
-/

/-- The number of elements of an array; null has none. -/
def arraySize : Native where
  name := "sizeof"
  check types := do
    ArgumentCheck.count types 1 1
    match types with
    | .array _ :: _ | .null :: _ => pure .int
    | _ => throw .badParameter
  run call := do
    let world ← get
    match call.arguments with
    | .array id :: _ => pure (.int (Int64.ofNat (world.heap.array id).items.size))
    | .null :: _ => pure (.int 0)
    | _ => Action.fail .badParameter

namespace Registry

/-- The registry that offers nothing but the named error codes. -/
def empty : Registry :=
  {}

/-- The registry of the standard library. -/
def standard : Registry :=
  let functions := (arraySize :: StringLibrary.natives).foldl addFunction empty
  (functions.addClass "file" none FileLibrary.fields FileLibrary.methods).addFunction
    FileLibrary.deleteFile

end Registry

end BotScript
