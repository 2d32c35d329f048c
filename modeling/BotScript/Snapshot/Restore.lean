import BotScript.Machine.Run
import BotScript.Snapshot.Record

namespace BotScript

/-!
# Restoring a suspended program

A snapshot is accepted when every number in it is in range, every record fits
the class or function it belongs to, and every frame is one that the frame
below can have pushed.  Instances come back without their open files.
-/

/-- Whether a frame of one node can have pushed a frame of another one. -/
def Tree.canPush (tree : Tree) : Node → Node → Bool
  | .start entry, .function function => entry == function
  | .start _, .expression id _ =>
      tree.classes.any fun owner => owner.statics.any fun field => field.initial == some id
  | .function function, .statement id =>
      ((tree.function? function).map fun entry => entry.body == some id).getD false
  | .fieldSetup owner, .expression id _ =>
      (tree.instanceFields owner).any fun field => field.2.initial == some id
  | .statement parent, .statement id =>
      ((tree.stmt? parent).map fun node => node.kind.childStmts.contains id).getD false
  | .statement parent, .expression id _ =>
      ((tree.stmt? parent).map fun node => node.kind.childExprs.contains id).getD false
  | .expression parent _, child =>
      match tree.expr? parent with
      | none => false
      | some node =>
          match node.kind, child with
          | kind, .expression id _ => kind.children.contains id
          | .call function _, .function target => function == target
          -- Dispatch can lead to the method of any class.
          | .methodCall _ _ (.user _) _, .function _ => true
          | .new owner _ _, .fieldSetup target => owner == target
          | .new _ constructor _, .function target => constructor == some (.user target)
          | _, _ => false
  | _, _ => false

/-- The result of restoring a part of a snapshot. -/
abbrev Restored := Except SnapshotError

namespace Restored

/-- A demand on a snapshot. -/
def demand (condition : Bool) (defect : SnapshotDefect) : Restored Unit :=
  if condition then .ok () else .error (.corrupt defect)

/-- A part that must be there. -/
def require {α : Type} (defect : SnapshotDefect) : Option α → Restored α
  | some value => .ok value
  | none => .error (.corrupt defect)

/-- A part that may be missing. -/
def optional {α β : Type} (restore : α → Restored β) : Option α → Restored (Option β)
  | some value => (restore value).map some
  | none => .ok none

/-- How many parts of each kind a snapshot has. -/
structure Bounds where
  cells : Nat
  arrays : Nat
  objects : Nat
  deriving Repr, DecidableEq

namespace Bounds

/-- The cell with a number. -/
def cell (bounds : Bounds) (number : UInt32) : Restored CellId := do
  demand (number.toNat < bounds.cells) .cellIndex
  pure ⟨number.toNat⟩

/-- The cells with some numbers. -/
def cellArray (bounds : Bounds) (numbers : List UInt32) : Restored (Array CellId) := do
  demand (numbers.all fun number => number.toNat < bounds.cells) .cellIndex
  pure (numbers.map fun number => (⟨number.toNat⟩ : CellId)).toArray

/-- The instance with a number. -/
def object (bounds : Bounds) (number : UInt32) : Restored ObjectId := do
  demand (number.toNat < bounds.objects) .objectIndex
  pure ⟨number.toNat⟩

/-- A value. -/
def value (bounds : Bounds) : SavedValue → Restored Value
  | .void => .ok .void
  | .bool content => .ok (.bool content)
  | .int content => .ok (.int content)
  | .float content => .ok (.float content)
  | .str content => .ok (.str content)
  | .nan => .ok .nan
  | .null => .ok .null
  | .array number => do
      demand (number.toNat < bounds.arrays) .arrayIndex
      pure (.array ⟨number.toNat⟩)
  | .object number => (bounds.object number).map .object

/-- A completion. -/
def completion (bounds : Bounds) : SavedCompletion → Restored Completion
  | .normal => .ok .normal
  | .value content => (bounds.value content).map .value
  | .place number => (bounds.cell number).map .place
  | .breakTo label => .ok (.breakTo label)
  | .continueTo label => .ok (.continueTo label)
  | .returned content => (bounds.value content).map .returned
  | .thrown error => .ok (.thrown error)

/-- An instance, which must have a cell for each field of its class. -/
def instance? (bounds : Bounds) (tree : Tree) (record : ObjectRecord) : Restored Instance := do
  let layout ← require .objectClass (tree.layout? record.owner)
  demand (layout.fieldCount == record.fields.length) .objectFields
  pure ⟨layout, ← bounds.cellArray record.fields, none⟩

/-- An array, which must not be longer than any array can be. -/
def arrayData (bounds : Bounds) (record : ArrayRecord) : Restored ArrayData := do
  demand (record.items.length ≤ ArrayData.greatestIndex + 1) .arraySize
  pure ⟨record.element, record.limits, ← bounds.cellArray record.items⟩

/-- The heap of a snapshot. -/
def heap (bounds : Bounds) (tree : Tree) (snapshot : Snapshot) : Restored Heap := do
  let objects ← snapshot.objects.mapM (bounds.instance? tree)
  let arrays ← snapshot.arrays.mapM bounds.arrayData
  let cells ← snapshot.cells.mapM fun record => do
    pure ⟨record.ty, ← bounds.value record.value, record.state⟩
  pure ⟨cells.toArray, arrays.toArray, objects.toArray⟩

/-- The static fields, of which there must be as many as the classes declare. -/
def statics (bounds : Bounds) (tree : Tree) (saved : List (List UInt32)) :
    Restored (Array (Array CellId)) := do
  demand (saved.map List.length == tree.classes.toList.map fun owner => owner.statics.length)
    .staticFields
  return (← saved.mapM bounds.cellArray).toArray

/-- An activation, which must have a cell for each variable of its function. -/
def activation (bounds : Bounds) (tree : Tree) (record : ActivationRecord) :
    Restored Activation := do
  if let some id := record.function then
    let function ← require .activationFunction (tree.function? id)
    demand (function.locals.length == record.locals.length) .activationLocals
  pure
    { function := record.function
      this := ← optional bounds.object record.this
      locals := ← bounds.cellArray record.locals }

/-- A frame, on top of the frame of a node. -/
def frame
    (bounds : Bounds) (tree : Tree) (activations : Nat) (parent : Option Node)
    (record : FrameRecord) :
    Restored Frame := do
  if let some parent := parent then
    demand (tree.canPush parent record.node) .frameNode
  let last ← require .frameNode (record.node.lastState? tree)
  demand (record.state ≤ last) .frameState
  demand (record.act.toNat < activations) .frameActivation
  pure
    { node := record.node
      state := record.state
      cursor := record.cursor
      aux := record.aux
      values := ← record.values.mapM bounds.value
      place := ← optional bounds.cell record.place
      pending := ← optional bounds.completion record.pending
      act := record.act }

/-- The frames of a chain, given and returned root first. -/
def frames (bounds : Bounds) (tree : Tree) (activations : Nat) :
    Option Node → List FrameRecord → Restored (List Frame)
  | _, [] => .ok []
  | parent, record :: rest => do
      let frame ← bounds.frame tree activations parent record
      let others ← bounds.frames tree activations (some record.node) rest
      pure (frame :: others)

end Bounds

end Restored

namespace Machine

/-- Restore a suspended program over the tree of a text with a signature. -/
def restore (tree : Tree) (snapshot : Snapshot) (signature : UInt32) (host : Host) :
    Restored Machine := do
  if snapshot.signature != signature then
    throw (.signature signature snapshot.signature)
  let entry ←
    match snapshot.frames.head?.map FrameRecord.node with
    | some (.start entry) => pure entry
    | _ => throw (.corrupt .chainRoot)
  if (tree.function? entry).map (·.name) != some snapshot.entry then
    throw (.entry snapshot.entry)
  let bounds : Restored.Bounds :=
    ⟨snapshot.cells.length, snapshot.arrays.length, snapshot.objects.length⟩
  let heap ← bounds.heap tree snapshot
  let statics ← bounds.statics tree snapshot.statics
  let activations ← snapshot.activations.mapM (bounds.activation tree)
  let frames ← bounds.frames tree activations.length none snapshot.frames
  let incoming ← Restored.optional bounds.completion snapshot.incoming
  pure
    { memory := ⟨⟨heap, host⟩, activations.toArray, statics⟩
      frames := frames.reverse
      incoming
      outcome := .running
      steps := snapshot.steps }

end Machine

end BotScript
