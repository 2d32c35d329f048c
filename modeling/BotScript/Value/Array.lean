import BotScript.Value.Convert

namespace BotScript

/-!
# Arrays

Reading needs an existing element.  Writing grows an array up to its limit,
and never beyond the largest index that any array accepts.
-/

namespace ArrayData

/-- The largest index of any array, and the largest limit that can be declared. -/
def greatestIndex : Nat :=
  9999

/-- An array without elements. -/
def empty (element : Ty) (limits : Limits) : ArrayData :=
  ⟨element, limits, #[]⟩

/-- The declared bound on the number of elements. -/
def limit? (array : ArrayData) : Option UInt32 :=
  array.limits.head?.join

/-- Whether the declared limit admits an index. -/
def admits (array : ArrayData) (index : Nat) : Bool :=
  match array.limit? with
  | some limit => index < limit.toNat
  | none => true

/-- The cell of an existing element. -/
def get (array : ArrayData) (index : Int64) : Except ErrorCode CellId :=
  if index < 0 then .error .outsideArray
  else
    match array.items[index.toInt.toNat]? with
    | some cell => .ok cell
    | none => .error .outsideArray

end ArrayData

namespace Heap

/-- Place a default element of an array; a nested array gets the remaining limits. -/
def newElement (heap : Heap) (array : ArrayData) : CellId × Heap :=
  match array.element with
  | .array inner =>
      let (nested, heap) := heap.addArray (.empty inner array.limits.tail)
      heap.addCell (.withDefault array.element (.array nested))
  | element => heap.addCell (.zeroed element)

/-- Append a number of default elements to an array. -/
def appendElements (heap : Heap) (id : ArrayId) : Nat → Heap
  | 0 => heap
  | count + 1 =>
      let array := heap.array id
      let (cell, heap) := heap.newElement array
      (heap.setArray id { array with items := array.items.push cell }).appendElements id count

/-- The position at which an array can be written under an index. -/
def positionForWrite (heap : Heap) (id : ArrayId) (index : Int64) : Except ErrorCode Nat :=
  let position := index.toInt.toNat
  if index < 0 || ArrayData.greatestIndex < position || !(heap.array id).admits position then
    .error .outsideArray
  else .ok position

/-- The cell of an element; the array grows up to it. -/
def growTo (heap : Heap) (id : ArrayId) (position : Nat) : Option CellId × Heap :=
  let missing := position + 1 - (heap.array id).items.size
  let grown := heap.appendElements id missing
  ((grown.array id).items[position]?, grown)

/-- The cell of an element that is about to be written; the array grows up to it. -/
def elementForWrite
    (heap : Heap) (id : ArrayId) (index : Int64) :
    Except ErrorCode (CellId × Heap) := do
  let position ← heap.positionForWrite id index
  match heap.growTo id position with
  | (some cell, grown) => .ok (cell, grown)
  | (none, _) => .error .outsideArray

/-- Append a cell to an array. -/
def pushElement (heap : Heap) (id : ArrayId) (cell : CellId) : Except ErrorCode Heap :=
  let array := heap.array id
  if ArrayData.greatestIndex < array.items.size || !array.admits array.items.size then
    .error .outsideArray
  else .ok (heap.setArray id { array with items := array.items.push cell })

end Heap

end BotScript
