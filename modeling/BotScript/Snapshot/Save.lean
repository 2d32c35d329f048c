import BotScript.Machine.Run
import BotScript.Snapshot.Record

namespace BotScript

/-!
# Saving a suspended program

The parts of the heap that the program can reach are numbered in the order in
which they are first seen: static fields, activations, frames from the root
up, the completion in transit, and then the parts of what has been numbered,
the latest first.
-/

/-- The parts of a heap numbered so far. -/
structure Numbering where
  /-- The number of each part, by its position on the heap. -/
  numbers : Array (Option UInt32)
  cells : Array CellId := #[]
  arrays : Array ArrayId := #[]
  objects : Array ObjectId := #[]
  /-- The parts whose own references are still to be seen, the latest first. -/
  pending : List HeapRef := []

namespace Numbering

/-- The number of a part. -/
def numberOf (numbering : Numbering) (heap : Heap) (ref : HeapRef) : UInt32 :=
  ((numbering.numbers[heap.partIndex ref]?).join).getD 0

/-- Note a part as numbered and pending. -/
def enlist (numbering : Numbering) (heap : Heap) (ref : HeapRef) (number : Nat) : Numbering :=
  { numbering with
    numbers := numbering.numbers.setIfInBounds (heap.partIndex ref) (some (UInt32.ofNat number))
    pending := ref :: numbering.pending }

/-- See a part: it gets the next number of its kind unless it has one. -/
def see (heap : Heap) (numbering : Numbering) (ref : HeapRef) : Numbering :=
  if ((numbering.numbers[heap.partIndex ref]?).join).isSome then numbering
  else
    match ref with
    | .cell id =>
        { numbering.enlist heap ref numbering.cells.size with
          cells := numbering.cells.push id }
    | .array id =>
        { numbering.enlist heap ref numbering.arrays.size with
          arrays := numbering.arrays.push id }
    | .object id =>
        { numbering.enlist heap ref numbering.objects.size with
          objects := numbering.objects.push id }

/-- What a part of the heap refers to. -/
def refsOf (heap : Heap) : HeapRef → List HeapRef
  | .cell id => (heap.cell id).value.refs
  | .array id => (heap.array id).items.toList.map .cell
  | .object id => (heap.object id).fields.toList.map .cell

/-- See everything that the pending parts refer to; every part is pending once. -/
def drain (heap : Heap) : Nat → Numbering → Numbering
  | 0, numbering => numbering
  | bound + 1, numbering =>
      match numbering.pending with
      | [] => numbering
      | ref :: rest =>
          drain heap bound ((refsOf heap ref).foldl (see heap) { numbering with pending := rest })

/-- The numbers of everything that roots can reach. -/
def ofRoots (heap : Heap) (roots : List HeapRef) : Numbering :=
  let empty : Numbering := { numbers := Array.replicate heap.partCount none }
  drain heap heap.partCount (roots.foldl (see heap) empty)

end Numbering

namespace SavedValue

/-- A value with its references numbered. -/
def ofValue (number : HeapRef → UInt32) : Value → SavedValue
  | .void => .void
  | .bool content => .bool content
  | .int content => .int content
  | .float content => .float content
  | .str content => .str content
  | .nan => .nan
  | .null => .null
  | .array id => .array (number (.array id))
  | .object id => .object (number (.object id))

end SavedValue

/-- A completion with its references numbered. -/
def SavedCompletion.ofCompletion (number : HeapRef → UInt32) : Completion → SavedCompletion
  | .normal => .normal
  | .value content => .value (.ofValue number content)
  | .place cell => .place (number (.cell cell))
  | .breakTo label => .breakTo label
  | .continueTo label => .continueTo label
  | .returned content => .returned (.ofValue number content)
  | .thrown error => .thrown error

/-- A frame with its references numbered. -/
def FrameRecord.ofFrame (number : HeapRef → UInt32) (frame : Frame) : FrameRecord :=
  { node := frame.node
    state := frame.state
    cursor := frame.cursor
    aux := frame.aux
    values := frame.values.map (.ofValue number)
    place := frame.place.map fun cell => number (.cell cell)
    pending := frame.pending.map (.ofCompletion number)
    act := frame.act }

namespace Machine

/-- The record of a machine whose entry function has a name. -/
def record (machine : Machine) (signature : UInt32) (entry : String) : Snapshot :=
  let heap := machine.memory.world.heap
  let numbering := Numbering.ofRoots heap machine.refs
  let number := numbering.numberOf heap
  let cells (ids : Array CellId) : List UInt32 := ids.toList.map fun id => number (.cell id)
  { signature
    entry
    cells := numbering.cells.toList.map fun id =>
      let cell := heap.cell id
      ⟨cell.ty, cell.state, .ofValue number cell.value⟩
    arrays := numbering.arrays.toList.map fun id =>
      let array := heap.array id
      ⟨array.element, array.limits, cells array.items⟩
    objects := numbering.objects.toList.map fun id =>
      let object := heap.object id
      ⟨object.layout.id, cells object.fields⟩
    statics := machine.memory.statics.toList.map cells
    activations := machine.memory.activations.toList.map fun activation =>
      ⟨activation.function, activation.this.map fun id => number (.object id),
        cells activation.locals⟩
    frames := machine.frames.reverse.map (.ofFrame number)
    incoming := machine.incoming.map (.ofCompletion number)
    steps := machine.steps }

/-- Save a suspended program whose text has a signature. -/
def save (tree : Tree) (machine : Machine) (signature : UInt32) :
    Except SnapshotError Snapshot :=
  match machine.outcome, machine.frames.getLast?.map Frame.node with
  | .running, some (.start entry) =>
      match tree.function? entry with
      | some function => .ok (machine.record signature function.name)
      | none => .error (.corrupt .entryFunction)
  | _, _ => .error .notRunning

end Machine

end BotScript
