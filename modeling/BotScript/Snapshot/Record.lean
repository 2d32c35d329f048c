import BotScript.Machine.Frame

namespace BotScript

/-!
# Snapshots

A snapshot holds everything a suspended program needs to go on.  Cells, arrays
and instances are numbered, and whatever refers to them holds the number, so
that parts which are shared stay shared.
-/

/-- A value whose references are numbers of arrays and instances. -/
inductive SavedValue where
  | void
  | bool (value : Bool)
  | int (value : Int64)
  | float (value : Double)
  | str (value : String)
  | nan
  | null
  | array (number : UInt32)
  | object (number : UInt32)
  deriving Repr, DecidableEq, Inhabited

/-- A completion whose references are numbers. -/
inductive SavedCompletion where
  | normal
  | value (value : SavedValue)
  | place (cell : UInt32)
  | breakTo (label : Option String)
  | continueTo (label : Option String)
  | returned (value : SavedValue)
  | thrown (error : RuntimeError)
  deriving Repr, DecidableEq, Inhabited

/-- A cell of a snapshot. -/
structure CellRecord where
  ty : Ty
  state : InitState
  value : SavedValue
  deriving Repr, DecidableEq, Inhabited

/-- An array of a snapshot; its items are numbers of cells. -/
structure ArrayRecord where
  element : Ty
  limits : Limits
  items : List UInt32
  deriving Repr, DecidableEq, Inhabited

/-- An instance of a snapshot; its fields are numbers of cells. -/
structure ObjectRecord where
  owner : ClassId
  fields : List UInt32
  deriving Repr, DecidableEq, Inhabited

/-- An activation of a snapshot. -/
structure ActivationRecord where
  function : Option FuncId
  this : Option UInt32
  locals : List UInt32
  deriving Repr, DecidableEq, Inhabited

/-- A frame of a snapshot. -/
structure FrameRecord where
  node : Node
  state : UInt32
  cursor : UInt32
  aux : UInt32
  values : List SavedValue
  place : Option UInt32
  pending : Option SavedCompletion
  act : UInt32
  deriving Repr, DecidableEq, Inhabited

/-- The complete state of a suspended program; frames stand root first. -/
structure Snapshot where
  /-- The signature of the program text. -/
  signature : UInt32
  /-- The name of the entry function. -/
  entry : String
  cells : List CellRecord
  arrays : List ArrayRecord
  objects : List ObjectRecord
  statics : List (List UInt32)
  activations : List ActivationRecord
  frames : List FrameRecord
  incoming : Option SavedCompletion
  steps : UInt64
  deriving Repr, DecidableEq, Inhabited

/-- What is wrong with the contents of a snapshot. -/
inductive SnapshotDefect where
  | entryFunction
  | chainRoot
  | cellIndex
  | arrayIndex
  | objectIndex
  | objectClass
  | objectFields
  | arraySize
  | staticFields
  | activationFunction
  | activationLocals
  | frameNode
  | frameState
  | frameActivation
  deriving Repr, DecidableEq, Inhabited

/-- The words for a defect. -/
def SnapshotDefect.text : SnapshotDefect → String
  | .entryFunction => "entry function"
  | .chainRoot => "chain root"
  | .cellIndex => "cell index"
  | .arrayIndex => "array index"
  | .objectIndex => "object index"
  | .objectClass => "object class"
  | .objectFields => "object fields"
  | .arraySize => "array size"
  | .staticFields => "static fields"
  | .activationFunction => "activation function"
  | .activationLocals => "activation locals"
  | .frameNode => "frame node"
  | .frameState => "frame state"
  | .frameActivation => "frame activation"

/-- Why a snapshot cannot be taken or restored. -/
inductive SnapshotError where
  /-- Only a running program can be saved. -/
  | notRunning
  | badMagic
  | version (found : UInt32)
  /-- The snapshot belongs to another program text. -/
  | signature (expected found : UInt32)
  /-- The program has no entry function of that name in its place. -/
  | entry (name : String)
  | corrupt (defect : SnapshotDefect)
  /-- The bytes are no snapshot. -/
  | unreadable
  deriving Repr, DecidableEq, Inhabited

/-- The version of the byte form of snapshots. -/
def Snapshot.currentVersion : UInt32 :=
  1

/-- A word as eight digits to the base sixteen. -/
def hexWord (word : UInt32) : String :=
  let digits := Nat.toDigits 16 word.toNat
  String.ofList (List.replicate (8 - digits.length) '0' ++ digits)

/-- The message for an error. -/
def SnapshotError.message : SnapshotError → String
  | .notRunning => "no program running"
  | .badMagic => "not a CBOT snapshot"
  | .version found =>
      "snapshot version " ++ toString found.toNat ++ ", expected "
        ++ toString Snapshot.currentVersion.toNat
  | .signature expected found =>
      "snapshot of another program (signature 0x" ++ hexWord found ++ ", expected 0x"
        ++ hexWord expected ++ ")"
  | .entry name => "entry function `" ++ name ++ "` not found"
  | .corrupt defect => "corrupt snapshot: " ++ defect.text
  | .unreadable => "cannot decode snapshot"

end BotScript
