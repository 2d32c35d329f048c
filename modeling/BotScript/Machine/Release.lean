import BotScript.Machine.Memory

namespace BotScript

/-!
# Releasing open files

An instance owns its open file, and the file closes when nothing refers to the
instance any more.  A part of the heap is released when no root and no part
still in use refers to it; parts that refer to each other in a circle keep each
other in use.
-/

/-- A part of the heap. -/
inductive HeapRef where
  | cell (id : CellId)
  | array (id : ArrayId)
  | object (id : ObjectId)
  deriving Repr, DecidableEq, Inhabited

/-- The part of the heap a value refers to. -/
def Value.refs : Value → List HeapRef
  | .array id => [.array id]
  | .object id => [.object id]
  | _ => []

/-- The part of the heap a completion refers to. -/
def Completion.refs : Completion → List HeapRef
  | .value content | .returned content => content.refs
  | .place cell => [.cell cell]
  | .normal | .breakTo _ | .continueTo _ | .thrown _ => []

/-- The parts of the heap a frame refers to. -/
def Frame.refs (frame : Frame) : List HeapRef :=
  frame.values.flatMap Value.refs ++ frame.place.toList.map .cell
    ++ frame.pending.toList.flatMap Completion.refs

/-- The parts of the heap an activation refers to. -/
def Activation.refs (activation : Activation) : List HeapRef :=
  activation.this.toList.map .object ++ activation.locals.toList.map .cell

/-- The parts of the heap that static fields and activations refer to. -/
def Memory.refs (memory : Memory) : List HeapRef :=
  (memory.statics.toList.flatMap fun fields => fields.toList.map .cell)
    ++ memory.activations.toList.flatMap Activation.refs

namespace Heap

/-- The number of parts of a heap. -/
def partCount (heap : Heap) : Nat :=
  heap.cells.size + heap.arrays.size + heap.objects.size

/-- The number of a part: cells come first, then arrays, then instances. -/
def partIndex (heap : Heap) : HeapRef → Nat
  | .cell id => id.index
  | .array id => heap.cells.size + id.index
  | .object id => heap.cells.size + heap.arrays.size + id.index

/-- The numbers of the parts that a part refers to. -/
def partRefs (heap : Heap) (index : Nat) : List Nat :=
  let arrays := heap.cells.size
  let objects := arrays + heap.arrays.size
  if index < arrays then (heap.cell ⟨index⟩).value.refs.map heap.partIndex
  else if index < objects then (heap.array ⟨index - arrays⟩).items.toList.map (·.index)
  else (heap.object ⟨index - objects⟩).fields.toList.map (·.index)

/-- The number of references to each part, from the roots and from all parts. -/
def refCounts (heap : Heap) (roots : List HeapRef) : Array Nat :=
  let count (counts : Array Nat) (index : Nat) : Array Nat := counts.modify index (· + 1)
  let fromRoots := (roots.map heap.partIndex).foldl count (Array.replicate heap.partCount 0)
  (List.range heap.partCount).foldl (fun counts index =>
    (heap.partRefs index).foldl count counts) fromRoots

/-- Take one reference away from a part; a part that has none left is released as well. -/
def dropRef (state : List Nat × Array Nat) (index : Nat) : List Nat × Array Nat :=
  let counts := state.2.modify index (· - 1)
  if counts[index]? = some 0 then (index :: state.1, counts) else (state.1, counts)

/-- Release the parts of a list with everything that only they refer to. -/
def releaseParts (heap : Heap) : Nat → List Nat → Array Nat → Array Nat
  | 0, _, counts => counts
  | _ + 1, [], counts => counts
  | bound + 1, index :: rest, counts =>
      let (work, counts) := (heap.partRefs index).foldl dropRef (rest, counts)
      heap.releaseParts bound work counts

/-- The number of references to each part once all unused parts are released. -/
def heldCounts (heap : Heap) (roots : List HeapRef) : Array Nat :=
  let counts := heap.refCounts roots
  let unused := (List.range heap.partCount).filter fun index => counts[index]? == some 0
  heap.releaseParts heap.partCount unused counts

end Heap

namespace World

/-- Close the file of an instance. -/
def closeFile (world : World) (id : ObjectId) : World :=
  let object := world.heap.object id
  match object.openFile with
  | some handle =>
      { heap := world.heap.setObject id { object with openFile := none }
        host := { world.host with openFiles := world.host.openFiles.erase handle } }
  | none => world

/-- Close the files of the instances that the roots do not hold. -/
def closeUnused (world : World) (roots : List HeapRef) : World :=
  let owners := (List.range world.heap.objects.size).filter fun index =>
    (world.heap.object ⟨index⟩).openFile.isSome
  if owners.isEmpty then world
  else
    let counts := world.heap.heldCounts roots
    let unused := owners.filter fun index =>
      counts[world.heap.partIndex (.object ⟨index⟩)]? == some 0
    unused.foldl (fun world index => world.closeFile ⟨index⟩) world

end World

end BotScript
