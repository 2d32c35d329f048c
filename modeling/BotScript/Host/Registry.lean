import BotScript.Host.FileAccess
import BotScript.Token.Constants
import BotScript.Tree.Item
import BotScript.Value.Convert

namespace BotScript

/-!
# Functions and classes of the host

A native function has two halves: a check that maps argument types to a result
type when a call is compiled, and a body that maps argument values to a result
when the call is executed.  Natives with the same name are overloads.
-/

/-- The open files, each under its number; numbers are never used twice. -/
structure OpenFiles where
  last : FileHandle := 0
  files : List (FileHandle × OpenFile) := []
  deriving Repr, DecidableEq, Inhabited

namespace OpenFiles

/-- The open file under a number. -/
def get? (table : OpenFiles) (handle : FileHandle) : Option OpenFile :=
  table.files.lookup handle

/-- Register an open file under the next number. -/
def insert (table : OpenFiles) (file : OpenFile) : FileHandle × OpenFiles :=
  (table.last + 1, ⟨table.last + 1, table.files ++ [(table.last + 1, file)]⟩)

/-- Replace the open file under a number. -/
def set (table : OpenFiles) (handle : FileHandle) (file : OpenFile) : OpenFiles :=
  { table with
    files := table.files.map fun entry => if entry.1 == handle then (handle, file) else entry }

/-- Forget the open file under a number. -/
def erase (table : OpenFiles) (handle : FileHandle) : OpenFiles :=
  { table with files := table.files.filter fun entry => entry.1 != handle }

end OpenFiles

/-- What programs share with their host: its files, its log and a request to stop. -/
structure Host where
  files : FileAccess
  openFiles : OpenFiles := {}
  log : List String := []
  stopRequested : Bool := false
  deriving Repr, DecidableEq, Inhabited

/-- What a native function can see and change. -/
structure World where
  heap : Heap
  host : Host
  deriving Repr, DecidableEq, Inhabited

/-- An action on the world; its changes stay when it fails. -/
abbrev Action := ExceptT Fault (StateM World)

namespace Action

/-- Fail with an error that scripts can catch. -/
def fail {α : Type} (code : ErrorCode) : Action α :=
  throw (.error code)

/-- The result of a check. -/
def ofChecked {α : Type} : Checked α → Action α
  | .ok value => pure value
  | .error fault => throw fault

/-- A value that must be there, or else an error. -/
def require {α : Type} (code : ErrorCode) : Option α → Action α
  | some value => pure value
  | none => fail code

/-- Change the heap. -/
def setHeap (heap : Heap) : Action Unit :=
  modify fun world => { world with heap }

/-- Change the host. -/
def modifyHost (change : Host → Host) : Action Unit :=
  modify fun world => { world with host := change world.host }

/-- Store a value of the type of the cell. -/
def assign (cell : CellId) (value : Value) : Action Unit := do
  let world ← get
  setHeap (← ofChecked (world.heap.assign cell value))

end Action

/-- The receiver, the arguments and the static types of the arguments of a native call. -/
structure NativeCall where
  receiver : Option ObjectId
  arguments : List Value
  types : List Ty
  deriving Repr, DecidableEq, Inhabited

namespace NativeCall

/-- An argument as a text; arguments that are no texts have their text form. -/
def string (call : NativeCall) (index : Nat) : Action String := do
  let value ← Action.require .missingParameters call.arguments[index]?
  match value with
  | .str text => pure text
  | .nan | .void | .null => Action.fail .badString
  | value =>
      let world ← get
      Action.ofChecked (world.heap.valueText value ((call.types[index]?).getD .string))

/-- An argument as an integer; floating-point numbers are truncated. -/
def int (call : NativeCall) (index : Nat) : Action Int64 := do
  let value ← Action.require .missingParameters call.arguments[index]?
  match value with
  | .nan => Action.fail .nanOperand
  | value => Action.require .badNumber value.int?

/-- The receiver of a method call. -/
def this (call : NativeCall) : Action ObjectId :=
  Action.require .nullObject call.receiver

/-- The cell of a field of the receiver. -/
def fieldCell (call : NativeCall) (name : String) : Action CellId := do
  let object ← call.this
  let world ← get
  Action.require .undefinedMember ((world.heap.object object).fieldNamed? name)

end NativeCall

/-- A function or method that the host implements. -/
structure Native where
  name : String
  check : List Ty → Except ErrorCode Ty
  run : NativeCall → Action Value

/-- A field of a host class. -/
structure HostField where
  name : String
  ty : Ty
  visibility : Visibility
  deriving Repr, DecidableEq, Inhabited

/-- A method of a host class. -/
structure HostMethod where
  name : String
  native : NativeId
  deriving Repr, DecidableEq, Inhabited

/-- A class that the host implements. -/
structure HostClass where
  name : String
  parent : Option String
  fields : List HostField
  methods : List HostMethod
  deriving Repr, DecidableEq, Inhabited

/-- Everything the host offers to programs; `functions` names the natives outside classes. -/
structure Registry where
  natives : Array Native := #[]
  functions : List (String × NativeId) := []
  classes : List HostClass := []
  constants : Constants := Constants.errorCodes

namespace Registry

/-- The native with an identifier. -/
def native? (registry : Registry) (id : NativeId) : Option Native :=
  registry.natives[id.index]?

/-- The natives outside classes that have a name, in order of registration. -/
def functionsNamed (registry : Registry) (name : String) : List NativeId :=
  (registry.functions.filter fun entry => entry.1 == name).map (·.2)

/-- The host class with a name. -/
def classNamed? (registry : Registry) (name : String) : Option HostClass :=
  registry.classes.find? fun entry => entry.name == name

/-- Register a native outside classes. -/
def addFunction (registry : Registry) (native : Native) : Registry :=
  let id := Id.ofIndex registry.natives.size
  { registry with
    natives := registry.natives.push native
    functions := registry.functions ++ [(native.name, id)] }

/-- Register a class with its fields and methods; a class whose name is taken is ignored. -/
def addClass
    (registry : Registry) (name : String) (parent : Option String)
    (fields : List HostField) (methods : List Native) :
    Registry :=
  if (registry.classNamed? name).isSome then registry
  else
    let first := registry.natives.size
    let named := methods.zipIdx.map fun (method, index) =>
      (⟨method.name, Id.ofIndex (first + index)⟩ : HostMethod)
    { registry with
      natives := registry.natives ++ methods.toArray
      classes := registry.classes ++ [⟨name, parent, fields, named⟩] }

/-- Define a named constant; a name that is taken keeps its value. -/
def defineConstant (registry : Registry) (name : String) (value : Int64) : Registry :=
  { registry with constants := (registry.constants.define name value).2 }

/--
The first of several natives whose check accepts the argument types, or the
error of the first check; none if there are no natives.
-/
def resolve? (registry : Registry) (types : List Ty) :
    List NativeId → Option (Except ErrorCode (NativeId × Ty))
  | [] => none
  | id :: others =>
      match registry.native? id with
      | none => registry.resolve? types others
      | some native =>
          match native.check types with
          | .ok result => some (.ok (id, result))
          | .error code =>
              match registry.resolve? types others with
              | some (.ok accepted) => some (.ok accepted)
              | _ => some (.error code)

/-- Run a native. -/
def call (registry : Registry) (id : NativeId) (call : NativeCall) : Action Value :=
  match registry.native? id with
  | some native => native.run call
  | none => Action.fail .undefinedFunction

end Registry

namespace ArgumentCheck

/-- Demand a number of arguments. -/
def count (types : List Ty) (least most : Nat) : Except ErrorCode Unit :=
  if types.length < least then .error .missingParameters
  else if most < types.length then .error .tooManyParameters
  else .ok ()

/-- Demand a text at a position. -/
def string (types : List Ty) (index : Nat) : Except ErrorCode Unit :=
  match types[index]? with
  | none => .error .missingParameters
  | some .string => .ok ()
  | some _ => .error .badString

/-- Demand a number at a position. -/
def numeric (types : List Ty) (index : Nat) : Except ErrorCode Unit :=
  match types[index]? with
  | none => .error .missingParameters
  | some ty => if ty.isNumeric then .ok () else .error .badNumber

end ArgumentCheck

end BotScript
