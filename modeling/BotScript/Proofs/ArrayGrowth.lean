import BotScript.Proofs.HeapSoundness
import BotScript.Proofs.StepOutcomes

namespace BotScript

/-!
# The growth of arrays

An array is read within its length.  It grows when it is written, and only as far as the
limit of its declaration and the bound on all arrays let it.  Growth adds new cells at the
end, which hold defaults, and leaves everything else on the heap as it is.
-/

/-! ## Arrays on the heap -/

namespace Heap

/-- An array that has been placed. -/
theorem array_addArray
    (heap : Heap)
    (array : ArrayData) :
    (heap.addArray array).2.array (heap.addArray array).1 = array := by
  simp [Heap.array, addArray]

/-- To place an array leaves the arrays that exist. -/
theorem array_addArray_of_lt
    {heap : Heap}
    {array : ArrayData}
    {id : ArrayId}
    (known : id.index < heap.arrays.size) :
    (heap.addArray array).2.array id = heap.array id := by
  simp [Heap.array, addArray, Array.getElem?_push, known, Nat.ne_of_lt known]

/-- An array that has been replaced. -/
theorem array_setArray
    {heap : Heap}
    {array : ArrayData}
    {id : ArrayId}
    (known : id.index < heap.arrays.size) :
    (heap.setArray id array).array id = array := by
  simp [Heap.array, setArray, known]

/-- To replace an array leaves the others. -/
theorem array_setArray_of_ne
    {heap : Heap}
    {array : ArrayData}
    {id other : ArrayId}
    (differ : other ≠ id) :
    (heap.setArray id array).array other = heap.array other := by
  have apart : id.index ≠ other.index := fun same =>
    differ (by cases id; cases other; exact congrArg ArrayId.mk same.symm)
  simp [Heap.array, setArray, Array.getElem?_setIfInBounds_ne apart]

/-- A cell that has been placed. -/
theorem cell_addCell
    (heap : Heap)
    (cell : Cell) :
    (heap.addCell cell).2.cell (heap.addCell cell).1 = cell := by
  simp [Heap.cell, addCell]

/-- To place a cell leaves the cells that exist. -/
theorem cell_addCell_of_lt
    {heap : Heap}
    {cell : Cell}
    {id : CellId}
    (known : id.index < heap.cells.size) :
    (heap.addCell cell).2.cell id = heap.cell id := by
  simp [Heap.cell, addCell, Array.getElem?_push, Nat.ne_of_lt known]

/-- A replaced cell. -/
theorem cell_setCell
    {heap : Heap}
    {id : CellId}
    (known : id.index < heap.cells.size)
    (cell : Cell) :
    (heap.setCell id cell).cell id = cell := by
  simp [Heap.cell, setCell, known]

/-- The other cells stay when one is replaced. -/
theorem cell_setCell_of_ne
    {heap : Heap}
    {id other : CellId}
    (differ : other ≠ id)
    (cell : Cell) :
    (heap.setCell id cell).cell other = heap.cell other := by
  have apart : id.index ≠ other.index := fun same =>
    differ (by cases id; cases other; exact congrArg CellId.mk same.symm)
  simp [Heap.cell, setCell, Array.getElem?_setIfInBounds_ne apart]

/-! ## New elements -/

/--
A cell holds the default of an element type: its zero, or an array of its own, which is
empty and has the limits that are left.
-/
def HoldsDefault
    (heap : Heap) (element : Ty) (limits : Limits) (nested : ArrayId) (cell : CellId) : Prop :=
  match element with
  | .array inner =>
      heap.cell cell = .withDefault element (.array nested) ∧
        heap.array nested = .empty inner limits
  | _ => heap.cell cell = .zeroed element

/-- The number of arrays that come with new elements of a type. -/
def nestedCount (element : Ty) (count : Nat) : Nat :=
  if element.element?.isSome then count else 0

/-- A default is kept where its cell and the array it holds, if it does, are kept. -/
theorem HoldsDefault.congr
    {before after : Heap}
    {element : Ty}
    {limits : Limits}
    {nested other : ArrayId}
    {cell : CellId}
    (holds : before.HoldsDefault element limits nested cell)
    (sameCell : after.cell cell = before.cell cell)
    (sameArray :
      element.element?.isSome = true →
        other = nested ∧ after.array nested = before.array nested) :
    after.HoldsDefault element limits other cell := by
  unfold HoldsDefault at holds ⊢
  split at holds
  · obtain ⟨rfl, same⟩ := sameArray rfl
    exact ⟨sameCell.trans holds.1, same.trans holds.2⟩
  · exact sameCell.trans holds

/--
An array has got a number of elements more.  They are new cells at the end of the heap,
each holds a default of its own, and everything else on the heap is as it was.
-/
structure Extends (before after : Heap) (id : ArrayId) (count : Nat) : Prop where
  element : (after.array id).element = (before.array id).element
  limits : (after.array id).limits = (before.array id).limits
  items :
    (after.array id).items.toList =
      (before.array id).items.toList ++ (List.range' before.cells.size count).map CellId.mk
  cells : ∀ cell : CellId, cell.index < before.cells.size → after.cell cell = before.cell cell
  arrays :
    ∀ other : ArrayId, other ≠ id → other.index < before.arrays.size →
      after.array other = before.array other
  objects : after.objects = before.objects
  cellCount : after.cells.size = before.cells.size + count
  arrayCount :
    after.arrays.size = before.arrays.size + nestedCount (before.array id).element count
  defaults :
    ∀ position < count,
      after.HoldsDefault (before.array id).element (before.array id).limits.tail
        ⟨before.arrays.size + position⟩ ⟨before.cells.size + position⟩

variable {heap : Heap} {id : ArrayId}

/-- A default element is a new cell at the end of the heap. -/
theorem newElement_holds
    (heap : Heap)
    (array : ArrayData) :
    (heap.newElement array).1 = ⟨heap.cells.size⟩ ∧
      (heap.newElement array).2.HoldsDefault array.element array.limits.tail
        ⟨heap.arrays.size⟩ ⟨heap.cells.size⟩ := by
  obtain ⟨element, limits, items⟩ := array
  cases element with
  | array inner => exact ⟨rfl, cell_addCell _ _, array_addArray heap _⟩
  | _ => exact ⟨rfl, cell_addCell heap _⟩

/-- What a default element adds to the heap. -/
theorem newElement_adds
    (heap : Heap)
    (array : ArrayData) :
    (heap.newElement array).2.cells.size = heap.cells.size + 1 ∧
      (heap.newElement array).2.arrays.size =
        heap.arrays.size + nestedCount array.element 1 ∧
      (heap.newElement array).2.objects = heap.objects := by
  obtain ⟨element, limits, items⟩ := array
  cases element <;>
    simp [newElement, nestedCount, addCell, addArray, Ty.element?]

/-- A default element leaves the cells and arrays that exist. -/
theorem newElement_keeps
    (heap : Heap)
    (array : ArrayData) :
    (∀ cell : CellId, cell.index < heap.cells.size →
      (heap.newElement array).2.cell cell = heap.cell cell) ∧
    ∀ other : ArrayId, other.index < heap.arrays.size →
      (heap.newElement array).2.array other = heap.array other := by
  obtain ⟨element, limits, items⟩ := array
  cases element with
  | array inner =>
      exact ⟨fun cell known => @cell_addCell_of_lt (heap.addArray _).2 _ cell known,
        fun other known => array_addArray_of_lt known⟩
  | _ => exact ⟨fun cell known => cell_addCell_of_lt known, fun other known => rfl⟩

/-- An array gets one default element more. -/
theorem extends_newElement
    (known : id.index < heap.arrays.size) :
    heap.Extends
      ((heap.newElement (heap.array id)).2.setArray id
        { heap.array id with
          items := (heap.array id).items.push (heap.newElement (heap.array id)).1 })
      id 1 := by
  obtain ⟨isNew, holds⟩ := newElement_holds heap (heap.array id)
  obtain ⟨cellCount, arrayCount, objects⟩ := newElement_adds heap (heap.array id)
  obtain ⟨cells, arrays⟩ := newElement_keeps heap (heap.array id)
  have knownLater : id.index < (heap.newElement (heap.array id)).2.arrays.size := by omega
  have replaced (array : ArrayData) :
      ((heap.newElement (heap.array id)).2.setArray id array).array id = array :=
    array_setArray knownLater
  exact {
    element := by rw [replaced]
    limits := by rw [replaced]
    items := by rw [replaced, isNew]; simp
    cells := cells
    arrays := fun other differ isKnown =>
      (array_setArray_of_ne differ).trans (arrays other isKnown)
    objects := objects
    cellCount := cellCount
    arrayCount := by simpa [setArray] using arrayCount
    defaults := fun position isNext => by
      obtain rfl := Nat.lt_one_iff.mp isNext
      refine holds.congr rfl fun _ => ⟨rfl, array_setArray_of_ne fun same => ?_⟩
      exact absurd known (by simp [← same]) }

/-- Elements come in two goes. -/
theorem Extends.trans
    {before between after : Heap}
    {first second : Nat}
    (known : id.index < before.arrays.size)
    (extended : before.Extends between id first)
    (later : between.Extends after id second) :
    before.Extends after id (first + second) where
  element := later.element.trans extended.element
  limits := later.limits.trans extended.limits
  items := by
    rw [later.items, extended.items, extended.cellCount, List.append_assoc, ← List.map_append,
      List.range'_append_1]
  cells cell isKnown :=
    (later.cells cell (by rw [extended.cellCount]; omega)).trans (extended.cells cell isKnown)
  arrays other differ isKnown :=
    (later.arrays other differ (by rw [extended.arrayCount]; omega)).trans
      (extended.arrays other differ isKnown)
  objects := later.objects.trans extended.objects
  cellCount := by rw [later.cellCount, extended.cellCount, Nat.add_assoc]
  arrayCount := by
    rw [later.arrayCount, extended.arrayCount, extended.element, nestedCount, nestedCount,
      nestedCount]
    split <;> omega
  defaults position isNew := by
    by_cases early : position < first
    · refine (extended.defaults position early).congr
        (later.cells _ (by rw [extended.cellCount]; simpa using early))
        fun nests => ⟨rfl, later.arrays _ (fun same => absurd known (by simp [← same])) ?_⟩
      rw [extended.arrayCount, nestedCount, if_pos nests]
      simpa using early
    · obtain ⟨rest, rfl⟩ := Nat.exists_eq_add_of_le (Nat.le_of_not_lt early)
      have holds := later.defaults rest (by omega)
      rw [extended.element, extended.limits, extended.cellCount, extended.arrayCount,
        Nat.add_assoc before.cells.size] at holds
      refine holds.congr rfl fun nests => ⟨?_, rfl⟩
      rw [nestedCount, if_pos nests, Nat.add_assoc]

/-- No element comes. -/
theorem Extends.none
    (heap : Heap)
    (id : ArrayId) :
    heap.Extends heap id 0 where
  element := rfl
  limits := rfl
  items := by simp
  cells _ _ := rfl
  arrays _ _ _ := rfl
  objects := rfl
  cellCount := rfl
  arrayCount := by simp [nestedCount]
  defaults position isNew := absurd isNew (Nat.not_lt_zero position)

/-- An array that is in the heap gets as many default elements as are appended. -/
theorem extends_appendElements
    (known : id.index < heap.arrays.size)
    (count : Nat) :
    heap.Extends (heap.appendElements id count) id count := by
  induction count generalizing heap with
  | zero => exact .none heap id
  | succ count inductionHypothesis =>
      have extended := extends_newElement known
      have rest := extended.trans known
        (inductionHypothesis (Nat.lt_of_lt_of_le known (by rw [extended.arrayCount]; omega)))
      rwa [Nat.add_comm] at rest

/-- The number of elements that are missing for a position. -/
def missing (heap : Heap) (id : ArrayId) (position : Nat) : Nat :=
  position + 1 - (heap.array id).items.size

/-- The array has a new length. -/
theorem Extends.size
    {before after : Heap}
    {count : Nat}
    (extended : before.Extends after id count) :
    (after.array id).items.size = (before.array id).items.size + count := by
  have length := congrArg List.length extended.items
  simpa using length

/-- An array grows up to a position, which it then has. -/
theorem growTo_extends
    (known : id.index < heap.arrays.size)
    (position : Nat) :
    ∃ cell grown,
      heap.growTo id position = (some cell, grown) ∧
      heap.Extends grown id (heap.missing id position) ∧
      (grown.array id).items[position]? = some cell := by
  have extended := extends_appendElements known (heap.missing id position)
  have inside :
      position < ((heap.growTo id position).2.array id).items.size := by
    refine Nat.lt_of_lt_of_eq ?_ extended.size.symm
    rw [missing]
    omega
  have isElement := Array.getElem?_eq_getElem inside
  exact ⟨_, _, Prod.ext isElement rfl, extended, isElement⟩

end Heap

/-! ## Limits -/

/-- The first limit, if there is one, lies above a position. -/
def Limits.Admit (limits : Limits) (position : Nat) : Prop :=
  ∀ limit : UInt32, limits.head? = some (some limit) → position < limit.toNat

/-- An array admits the positions that its first limit admits. -/
theorem ArrayData.admits_iff
    (array : ArrayData)
    (position : Nat) :
    array.admits position = true ↔ Limits.Admit array.limits position := by
  obtain ⟨element, limits, items⟩ := array
  match limits with
  | [] => simp [admits, limit?, Limits.Admit]
  | none :: rest => simp [admits, limit?, Limits.Admit]
  | some limit :: rest => simp [admits, limit?, Limits.Admit]

namespace ArrayData

variable {array : ArrayData} {index : Int64}

/-- An element at an index within the length is read. -/
theorem get_of_inside
    (notNegative : 0 ≤ index.toInt)
    (inside : index.toInt.toNat < array.items.size) :
    array.get index = .ok array.items[index.toInt.toNat] := by
  unfold get
  rw [if_neg (by rw [Int64.lt_iff_toInt_lt]; exact Int.not_lt.mpr notNegative),
    Array.getElem?_eq_getElem inside]

/-- No other element is read. -/
theorem get_of_outside
    (outside : ¬ (0 ≤ index.toInt ∧ index.toInt < array.items.size)) :
    array.get index = .error .outsideArray := by
  unfold get
  split
  · rfl
  · next notNegative =>
    rw [Int64.lt_iff_toInt_lt, Int64.toInt_zero] at notNegative
    rw [Array.getElem?_eq_none (by omega)]

end ArrayData

namespace Heap

variable {heap : Heap} {id : ArrayId} {index : Int64} {cell : CellId}

/-- An index that the bounds of an array let through is a position. -/
theorem positionForWrite_of_allowed
    (notNegative : 0 ≤ index.toInt)
    (small : index.toInt ≤ ArrayData.greatestIndex)
    (admitted : Limits.Admit (heap.array id).limits index.toInt.toNat) :
    heap.positionForWrite id index = .ok index.toInt.toNat := by
  have notLess : ¬ index < 0 := by
    rw [Int64.lt_iff_toInt_lt]
    exact Int.not_lt.mpr notNegative
  have notGreater : ¬ ArrayData.greatestIndex < index.toInt.toNat := by omega
  have admits := (ArrayData.admits_iff _ _).mpr admitted
  unfold positionForWrite
  dsimp only
  rw [if_neg (by simp only [notLess, notGreater, admits]; decide)]

/-- No other index is. -/
theorem positionForWrite_of_refused
    (refused :
      ¬ (0 ≤ index.toInt ∧ index.toInt ≤ ArrayData.greatestIndex ∧
        Limits.Admit (heap.array id).limits index.toInt.toNat)) :
    heap.positionForWrite id index = .error .outsideArray := by
  simp only [positionForWrite, ite_eq_left_iff, reduceCtorEq, imp_false, Bool.not_eq_true,
    Bool.or_eq_false_iff, decide_eq_false_iff_not, Bool.not_eq_false']
  rintro ⟨⟨notLess, notGreater⟩, admits⟩
  rw [Int64.lt_iff_toInt_lt, Int64.toInt_zero] at notLess
  exact refused ⟨by omega, by omega, (ArrayData.admits_iff _ _).mp admits⟩

/-- An array with room for one element more takes a cell. -/
theorem pushElement_of_allowed
    (small : (heap.array id).items.size ≤ ArrayData.greatestIndex)
    (admitted : Limits.Admit (heap.array id).limits (heap.array id).items.size) :
    heap.pushElement id cell =
      .ok (heap.setArray id
        { heap.array id with items := (heap.array id).items.push cell }) := by
  have admits := (ArrayData.admits_iff _ _).mpr admitted
  simp [pushElement, Nat.not_lt.mpr small, admits]

/-- No other array does. -/
theorem pushElement_of_refused
    (refused :
      ¬ ((heap.array id).items.size ≤ ArrayData.greatestIndex ∧
        Limits.Admit (heap.array id).limits (heap.array id).items.size)) :
    heap.pushElement id cell = .error .outsideArray := by
  simp only [pushElement, ite_eq_left_iff, reduceCtorEq, imp_false, Bool.not_eq_true,
    Bool.or_eq_false_iff, decide_eq_false_iff_not, Bool.not_eq_false']
  rintro ⟨notGreater, admits⟩
  exact refused ⟨by omega, (ArrayData.admits_iff _ _).mp admits⟩

end Heap

/-! ## Calls on arrays -/

/-- A call on an array. -/
inductive ArrayCall where
  /-- Read the element at an index. -/
  | read (index : Int64)
  /-- Write the element at an index. -/
  | write (index : Int64)
  /-- Append a cell. -/
  | append (cell : CellId)
  deriving Repr, DecidableEq

namespace ArrayCall

/-- The answer to a call and the heap that it leaves. -/
def run (heap : Heap) (id : ArrayId) : ArrayCall → Except ErrorCode CellId × Heap
  | .read index => ((heap.array id).get index, heap)
  | .write index =>
      match heap.positionForWrite id index with
      | .error code => (.error code, heap)
      | .ok position =>
          match heap.growTo id position with
          | (some cell, grown) => (.ok cell, grown)
          | (none, grown) => (.error .outsideArray, grown)
  | .append cell =>
      match heap.pushElement id cell with
      | .error code => (.error code, heap)
      | .ok longer => (.ok cell, longer)

/-- A cell that is appended exists. -/
def Known (heap : Heap) : ArrayCall → Prop
  | .append cell => cell.index < heap.cells.size
  | .read _ | .write _ => True

/-- The calls that an array with limits and a number of elements lets take place. -/
def Allowed (limits : Limits) (size : Nat) : ArrayCall → Prop
  | .read index => 0 ≤ index.toInt ∧ index.toInt < size
  | .write index =>
      0 ≤ index.toInt ∧ index.toInt ≤ ArrayData.greatestIndex ∧
        Limits.Admit limits index.toInt.toNat
  | .append _ => size ≤ ArrayData.greatestIndex ∧ Limits.Admit limits size

/-- What a call that is answered with a cell does to an array. -/
def Effect (before after : Heap) (id : ArrayId) (cell : CellId) : ArrayCall → Prop
  | .read index => after = before ∧ (before.array id).items[index.toInt.toNat]? = some cell
  | .write index =>
      (after.array id).items.size =
          max (before.array id).items.size (index.toInt.toNat + 1) ∧
        before.Extends after id ((after.array id).items.size - (before.array id).items.size) ∧
        (∀ item ∈ (before.array id).items, after.cell item = before.cell item) ∧
        (after.array id).items[index.toInt.toNat]? = some cell
  | .append item =>
      cell = item ∧
        after = before.setArray id
          { before.array id with items := (before.array id).items.push item }

end ArrayCall

/--
An allowed call is answered with a cell and has its effect; any other is refused, and has
none.
-/
def ArrayCall.Answers (limits : Limits) (heap : Heap) (id : ArrayId) (call : ArrayCall) : Prop :=
  (call.Allowed limits (heap.array id).items.size →
    ∃ cell, (call.run heap id).1 = .ok cell ∧ call.Effect heap (call.run heap id).2 id cell) ∧
  (¬ call.Allowed limits (heap.array id).items.size →
    call.run heap id = (.error .outsideArray, heap))

/-- An array of a heap has an element type and limits, and observes its bounds. -/
structure Heap.HasArray (heap : Heap) (element : Ty) (limits : Limits) (id : ArrayId) : Prop where
  known : id.index < heap.arrays.size
  hasElement : (heap.array id).element = element
  hasLimits : (heap.array id).limits = limits
  sound : (heap.array id).Sound heap.bounds
  limited :
    ∀ limit : UInt32, limits.head? = some (some limit) →
      (heap.array id).items.size ≤ limit.toNat

/--
The states of an array: it is created without elements, calls take place, and between them
anything happens that leaves the array itself as it is.
-/
inductive ArrayReached (element : Ty) (limits : Limits) : Heap → ArrayId → Prop where
  | created
      {heap : Heap}
      {id : ArrayId} :
      id.index < heap.arrays.size →
      heap.array id = .empty element limits →
      ArrayReached element limits heap id
  | called
      {heap : Heap}
      {id : ArrayId}
      (call : ArrayCall) :
      ArrayReached element limits heap id →
      call.Known heap →
      ArrayReached element limits (call.run heap id).2 id
  | elsewhere
      {heap later : Heap}
      {id : ArrayId} :
      ArrayReached element limits heap id →
      heap.bounds ≤ later.bounds →
      later.array id = heap.array id →
      ArrayReached element limits later id

namespace Heap.HasArray

variable {element : Ty} {limits : Limits} {heap : Heap} {id : ArrayId}

/-- An array without elements has been created. -/
theorem created
    (known : id.index < heap.arrays.size)
    (isEmpty : heap.array id = .empty element limits) :
    heap.HasArray element limits id where
  known := known
  hasElement := isEmpty ▸ rfl
  hasLimits := isEmpty ▸ rfl
  sound := isEmpty ▸ ArrayData.sound_empty _ element limits
  limited _ _ := isEmpty ▸ Nat.zero_le _

variable (has : heap.HasArray element limits id)

include has

/-- The array stays while the heap grows elsewhere. -/
theorem elsewhere
    {later : Heap}
    (grown : heap.bounds ≤ later.bounds)
    (same : later.array id = heap.array id) :
    later.HasArray element limits id where
  known := Nat.lt_of_lt_of_le has.known grown.arrays
  hasElement := same ▸ has.hasElement
  hasLimits := same ▸ has.hasLimits
  sound := same ▸ has.sound.mono grown
  limited := same ▸ has.limited

omit has in
/-- A read is answered within the length. -/
theorem answers_read
    (heap : Heap)
    (id : ArrayId)
    (index : Int64) :
    (ArrayCall.read index).Answers limits heap id := by
  refine ⟨fun allowed => ?_, fun refused => Prod.ext (ArrayData.get_of_outside refused) rfl⟩
  obtain ⟨notNegative, small⟩ : _ ∧ _ := allowed
  have inside : index.toInt.toNat < (heap.array id).items.size := by omega
  exact ⟨_, ArrayData.get_of_inside notNegative inside, rfl, Array.getElem?_eq_getElem inside⟩

/-- A write is answered up to the limit and to the greatest index of arrays. -/
theorem answers_write
    (index : Int64) :
    (ArrayCall.write index).Answers limits heap id := by
  refine ⟨fun allowed => ?_, fun refused => ?_⟩
  · obtain ⟨notNegative, small, admitted⟩ : _ ∧ _ ∧ _ := allowed
    have position :=
      positionForWrite_of_allowed notNegative small (has.hasLimits.symm ▸ admitted)
    obtain ⟨cell, grown, isGrown, grows, isElement⟩ :=
      growTo_extends has.known index.toInt.toNat
    have answered : (ArrayCall.write index).run heap id = (.ok cell, grown) := by
      simp only [ArrayCall.run, position, isGrown]
    have size : (grown.array id).items.size =
        max (heap.array id).items.size (index.toInt.toNat + 1) := by
      rw [grows.size, missing]
      omega
    have count : (grown.array id).items.size - (heap.array id).items.size =
        heap.missing id index.toInt.toNat := by
      rw [grows.size, Nat.add_sub_cancel_left]
    rw [answered]
    exact ⟨cell, rfl, size, count.symm ▸ grows,
      fun item member => grows.cells item (has.sound.items item member), isElement⟩
  · have position : heap.positionForWrite id index = .error .outsideArray :=
      positionForWrite_of_refused (has.hasLimits.symm ▸ refused)
    simp only [ArrayCall.run, position]

/-- A cell is appended up to the limit and to the greatest index of arrays. -/
theorem answers_append
    (cell : CellId) :
    (ArrayCall.append cell).Answers limits heap id := by
  refine ⟨fun allowed => ?_, fun refused => ?_⟩
  · obtain ⟨small, admitted⟩ : _ ∧ _ := allowed
    have pushed : heap.pushElement id cell = .ok _ :=
      pushElement_of_allowed small (has.hasLimits.symm ▸ admitted)
    simp only [ArrayCall.run, pushed]
    exact ⟨cell, rfl, rfl, rfl⟩
  · have pushed : heap.pushElement id cell = .error .outsideArray :=
      pushElement_of_refused (has.hasLimits.symm ▸ refused)
    simp only [ArrayCall.run, pushed]

/-- Every call is answered when the array allows it, and refused without an effect otherwise. -/
theorem answers
    (call : ArrayCall) :
    call.Answers limits heap id := by
  cases call with
  | read index => exact answers_read heap id index
  | write index => exact has.answers_write index
  | append cell => exact has.answers_append cell

/-- An array with new elements still observes its bounds. -/
theorem extended
    {grown : Heap}
    {index : Int64}
    {count : Nat}
    (grows : heap.Extends grown id count)
    (size : (grown.array id).items.size =
      max (heap.array id).items.size (index.toInt.toNat + 1))
    (allowed : (ArrayCall.write index).Allowed limits (heap.array id).items.size) :
    grown.HasArray element limits id := by
  obtain ⟨notNegative, small, admitted⟩ : _ ∧ _ ∧ _ := allowed
  have fits := has.sound.size
  refine ⟨?_, grows.element.trans has.hasElement, grows.limits.trans has.hasLimits,
    ⟨fun item member => ?_, by rw [size]; omega⟩, fun limit isLimit => ?_⟩
  · rw [grows.arrayCount]
    exact Nat.lt_add_right _ has.known
  · rw [Heap.bounds, grows.cellCount]
    rw [← Array.mem_toList_iff, grows.items, List.mem_append, Array.mem_toList_iff] at member
    obtain former | new := member
    · exact Nat.lt_add_right _ (has.sound.items item former)
    · obtain ⟨position, inside, rfl⟩ := List.mem_map.mp new
      exact (List.mem_range'_1.mp inside).2
  · have := has.limited limit isLimit
    have := admitted limit isLimit
    omega

/-- An array with one cell more at its end still observes its bounds. -/
theorem appended
    {cell : CellId}
    (known : cell.index < heap.cells.size)
    (allowed : (ArrayCall.append cell).Allowed limits (heap.array id).items.size) :
    (heap.setArray id
      { heap.array id with items := (heap.array id).items.push cell }).HasArray
        element limits id := by
  obtain ⟨small, admitted⟩ : _ ∧ _ := allowed
  have longer (array : ArrayData) : (heap.setArray id array).array id = array :=
    array_setArray has.known
  refine ⟨by simpa [setArray] using has.known, by rw [longer]; exact has.hasElement,
    by rw [longer]; exact has.hasLimits, ⟨?_, ?_⟩, fun limit isLimit => ?_⟩
  · rw [longer]
    exact Array.forall_mem_push has.sound.items known
  · rw [longer, Array.size_push]
    omega
  · rw [longer, Array.size_push]
    exact admitted limit isLimit

/-- No call breaks the bounds of an array, or shortens it. -/
theorem called
    {call : ArrayCall}
    (known : call.Known heap) :
    (call.run heap id).2.HasArray element limits id ∧
      (heap.array id).items.size ≤ ((call.run heap id).2.array id).items.size := by
  obtain ⟨answered, refused⟩ := has.answers call
  by_cases allowed : call.Allowed limits (heap.array id).items.size
  · obtain ⟨cell, -, effect⟩ := answered allowed
    cases call with
    | read index => exact ⟨has, Nat.le_refl _⟩
    | write index =>
        obtain ⟨size, grows, -, -⟩ : _ ∧ _ ∧ _ ∧ _ := effect
        exact ⟨has.extended grows size allowed, by rw [size]; omega⟩
    | append item =>
        obtain ⟨-, isLonger⟩ : _ ∧ _ := effect
        rw [isLonger, array_setArray has.known]
        exact ⟨has.appended known allowed, by simp⟩
  · rw [refused allowed]
    exact ⟨has, Nat.le_refl _⟩

end Heap.HasArray

namespace ArrayReached

variable {element : Ty} {limits : Limits} {heap : Heap} {id : ArrayId}

/-- In all its states an array observes its bounds. -/
theorem hasArray
    (reached : ArrayReached element limits heap id) :
    heap.HasArray element limits id := by
  induction reached with
  | created known isEmpty => exact .created known isEmpty
  | called call _ known inductionHypothesis => exact (inductionHypothesis.called known).1
  | elsewhere _ grown same inductionHypothesis => exact inductionHypothesis.elsewhere grown same

/--
Whatever happened to an array, it keeps its element type and its limits, it is no longer than
its limit and than arrays can be, and the next call is answered or refused by these bounds
alone.  No call shortens it.
-/
theorem grows_within_limits
    (reached : ArrayReached element limits heap id)
    (call : ArrayCall)
    (known : call.Known heap) :
    (heap.array id).element = element ∧
      (heap.array id).limits = limits ∧
      (heap.array id).items.size ≤ ArrayData.greatestIndex + 1 ∧
      (∀ limit : UInt32, limits.head? = some (some limit) →
        (heap.array id).items.size ≤ limit.toNat) ∧
      call.Answers limits heap id ∧
      (heap.array id).items.size ≤ ((call.run heap id).2.array id).items.size := by
  have has := reached.hasArray
  obtain ⟨-, longer⟩ := has.called known
  exact ⟨has.hasElement, has.hasLimits, has.sound.size, has.limited, has.answers call, longer⟩

/-- A heap with an array of at most four rows, of at most three numbers each. -/
def gridHeap : Heap :=
  (Heap.addArray {} (.empty (.array .int) [some 4, some 3])).2

/-- The heap after the second row has been written. -/
def grownHeap : Heap :=
  ((ArrayCall.write 1).run gridHeap ⟨0⟩).2

/-- The grid has two empty rows after a write of the second one, and no place for a fifth. -/
theorem grows_within_limits_grid :
    ArrayReached (.array .int) [some 4, some 3] grownHeap ⟨0⟩ ∧
      (ArrayCall.write 4).Known grownHeap ∧
      (grownHeap.array ⟨0⟩).items = #[⟨0⟩, ⟨1⟩] ∧
      grownHeap.cells =
        #[⟨.array .int, .array ⟨1⟩, .defaulted⟩, ⟨.array .int, .array ⟨2⟩, .defaulted⟩] ∧
      (grownHeap.array ⟨2⟩).limits = [some 3] ∧
      (ArrayCall.write 4).run grownHeap ⟨0⟩ = (.error .outsideArray, grownHeap) := by
  have reached : ArrayReached (.array .int) [some 4, some 3] grownHeap ⟨0⟩ :=
    .called (.write 1) (.created (by decide) rfl) trivial
  obtain ⟨-, -, -, -, ⟨-, refused⟩, -⟩ := reached.grows_within_limits (.write 4) trivial
  refine ⟨reached, trivial, by decide, by decide, by decide, refused fun allowed => ?_⟩
  exact absurd (allowed.2.2 4 rfl) (by decide)

end ArrayReached

/-! ## Indexed places -/

/-- The outcome of a step that answers as a call on an array does. -/
def ArrayCall.outcome (answer : Except ErrorCode CellId) : Except Interrupt Move :=
  Step.outcomeOf (.ofExcept (answer.map fun cell => .complete (.place cell)))

/--
An indexed place of a running program is the answer to a write of the array that its holder
refers to, and the heap becomes what the write leaves.
-/
theorem Step.element_place
    {frame : Frame}
    {memory : Memory}
    {holder : CellId}
    {array : ArrayId}
    {index : Int64}
    (isPlace : frame.place = some holder)
    (holds : (memory.world.heap.cell holder).value = .array array) :
    Results memory (Step.element frame .place (some (.value (.int index))))
      (ArrayCall.outcome ((ArrayCall.write index).run memory.world.heap array).1)
      (memory.withHeap ((ArrayCall.write index).run memory.world.heap array).2) := by
  have position : Results memory (Step.indexOf (some (.value (.int index)))) (.ok index) memory :=
    rfl
  have target : Results memory (Step.arrayForWrite holder) (.ok array) memory := by
    refine .bind .heap ?_
    dsimp only
    rw [holds]
    exact .pure array
  unfold Step.element
  refine .bind position ?_
  refine .bind (.require isPlace) (.bind target (.bind .heap ?_))
  simp only [ArrayCall.run]
  cases found : memory.world.heap.positionForWrite array index with
  | error code => exact .stop (.ofExcept _)
  | ok place =>
      refine .bind (.ofExcept (.ok place)) (.bind (.allocate _) ?_)
      dsimp only
      generalize memory.world.heap.growTo array place = grown
      obtain ⟨found | cell, heap⟩ := grown
      · rfl
      · rfl

end BotScript
