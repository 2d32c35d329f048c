import BotScript.Proofs.OperatorResult
import BotScript.Snapshot.Restore
import Mathlib.Order.Defs.PartialOrder

namespace BotScript

/-!
# Sound heaps

A heap is sound over a tree when its parts refer only to parts that exist, its
arrays are no longer than arrays can be, and its instances have the shape of a
class of the tree.  Heaps only grow, so what exists on a heap exists on every
later one.
-/

open Restored (Bounds)

/-- Whether there are no more parts of any kind. -/
structure Restored.Bounds.AtMost (first second : Bounds) : Prop where
  cells : first.cells ≤ second.cells
  arrays : first.arrays ≤ second.arrays
  objects : first.objects ≤ second.objects

instance : Preorder Bounds where
  le := Restored.Bounds.AtMost
  le_refl _ := ⟨Nat.le_refl _, Nat.le_refl _, Nat.le_refl _⟩
  le_trans _ _ _ first second :=
    ⟨Nat.le_trans first.cells second.cells, Nat.le_trans first.arrays second.arrays,
      Nat.le_trans first.objects second.objects⟩

/-- How many parts of each kind a heap has. -/
def Heap.bounds (heap : Heap) : Bounds :=
  ⟨heap.cells.size, heap.arrays.size, heap.objects.size⟩

/-- Whether a part exists within bounds. -/
def HeapRef.Within (bounds : Bounds) : HeapRef → Prop
  | .cell id => id.index < bounds.cells
  | .array id => id.index < bounds.arrays
  | .object id => id.index < bounds.objects

/-- A part that exists goes on to exist. -/
theorem HeapRef.Within.mono
    {bounds later : Bounds}
    {ref : HeapRef}
    (within : ref.Within bounds)
    (grown : bounds ≤ later) :
    ref.Within later := by
  obtain ⟨cells, arrays, objects⟩ := grown
  cases ref <;> simp only [HeapRef.Within] at within ⊢ <;> omega

namespace Restored.Bounds

variable {bounds later : Bounds}

/-- Whether all parts of a list exist within bounds. -/
def Cover (bounds : Bounds) (refs : List HeapRef) : Prop :=
  ∀ ref ∈ refs, ref.Within bounds

/-- Parts that exist go on to exist. -/
theorem Cover.mono
    {refs : List HeapRef}
    (covered : bounds.Cover refs)
    (grown : bounds ≤ later) :
    later.Cover refs :=
  fun ref member => (covered ref member).mono grown

@[simp] theorem cover_nil : bounds.Cover [] := by
  simp [Cover]

@[simp] theorem cover_cons
    {ref : HeapRef}
    {refs : List HeapRef} :
    bounds.Cover (ref :: refs) ↔ ref.Within bounds ∧ bounds.Cover refs := by
  simp [Cover]

@[simp] theorem cover_append
    {first second : List HeapRef} :
    bounds.Cover (first ++ second) ↔ bounds.Cover first ∧ bounds.Cover second := by
  simp [Cover, or_imp, forall_and]

@[simp] theorem cover_flatMap
    {α : Type}
    {items : List α}
    {refs : α → List HeapRef} :
    bounds.Cover (items.flatMap refs) ↔ ∀ item ∈ items, bounds.Cover (refs item) := by
  simp only [Cover, List.mem_flatMap, forall_exists_index, and_imp]
  exact ⟨fun covered item member ref refMember => covered ref item member refMember,
    fun covered ref item member refMember => covered item member ref refMember⟩

/-- Some cells exist when each of them does. -/
@[simp] theorem cover_cells
    {cells : List CellId} :
    bounds.Cover (cells.map .cell) ↔ ∀ cell ∈ cells, cell.index < bounds.cells := by
  simp [Cover, HeapRef.Within]

end Restored.Bounds

@[simp] theorem HeapRef.within_cell
    {bounds : Bounds}
    {id : CellId} :
    (HeapRef.cell id).Within bounds ↔ id.index < bounds.cells := Iff.rfl

@[simp] theorem HeapRef.within_array
    {bounds : Bounds}
    {id : ArrayId} :
    (HeapRef.array id).Within bounds ↔ id.index < bounds.arrays := Iff.rfl

@[simp] theorem HeapRef.within_object
    {bounds : Bounds}
    {id : ObjectId} :
    (HeapRef.object id).Within bounds ↔ id.index < bounds.objects := Iff.rfl

/-! ## Sound parts -/

/-- The refs of the elements exist, and there are no more of them than arrays can have. -/
structure ArrayData.Sound (bounds : Bounds) (array : ArrayData) : Prop where
  items : ∀ item ∈ array.items, item.index < bounds.cells
  size : array.items.size ≤ ArrayData.greatestIndex + 1

/-- The fields exist, and the instance has the layout of a class. -/
structure Instance.Sound (tree : Tree) (bounds : Bounds) (object : Instance) : Prop where
  fields : ∀ field ∈ object.fields, field.index < bounds.cells
  layout : tree.layout? object.layout.id = some object.layout
  count : object.fields.size = object.layout.fieldCount

/-- All parts of a heap are sound. -/
structure Heap.Sound (tree : Tree) (heap : Heap) : Prop where
  cells : ∀ cell ∈ heap.cells, heap.bounds.Cover cell.value.refs
  arrays : ∀ array ∈ heap.arrays, array.Sound heap.bounds
  objects : ∀ object ∈ heap.objects, object.Sound tree heap.bounds

/-- A heap becomes a sound heap on which everything still exists. -/
structure Heap.Becomes (tree : Tree) (before after : Heap) : Prop where
  sound : after.Sound tree
  grown : before.bounds ≤ after.bounds

/-- What a heap becomes twice. -/
theorem Heap.Becomes.trans
    {tree : Tree}
    {first second third : Heap}
    (becomes : first.Becomes tree second)
    (later : second.Becomes tree third) :
    first.Becomes tree third :=
  ⟨later.sound, le_trans becomes.grown later.grown⟩

/-- An array stays sound while the heap grows. -/
theorem ArrayData.Sound.mono
    {bounds later : Bounds}
    {array : ArrayData}
    (sound : array.Sound bounds)
    (grown : bounds ≤ later) :
    array.Sound later :=
  ⟨fun item member => Nat.lt_of_lt_of_le (sound.items item member) grown.cells, sound.size⟩

/-- An existing element. -/
theorem ArrayData.Sound.get
    {bounds : Bounds}
    {array : ArrayData}
    (sound : array.Sound bounds)
    {index : Int64}
    {cell : CellId}
    (found : array.get index = .ok cell) :
    cell.index < bounds.cells := by
  unfold ArrayData.get at found
  split at found
  · simp at found
  · split at found
    · next item entry =>
        cases found
        exact sound.items _ (Array.mem_of_getElem? entry)
    · simp at found

/-- An instance stays sound while the heap grows. -/
theorem Instance.Sound.mono
    {tree : Tree}
    {bounds later : Bounds}
    {object : Instance}
    (sound : object.Sound tree bounds)
    (grown : bounds ≤ later) :
    object.Sound tree later :=
  ⟨fun field member => Nat.lt_of_lt_of_le (sound.fields field member) grown.cells, sound.layout, sound.count⟩

/-- An array without elements is sound. -/
theorem ArrayData.sound_empty
    (bounds : Bounds)
    (element : Ty)
    (limits : Limits) :
    (ArrayData.empty element limits).Sound bounds :=
  ⟨by simp [ArrayData.empty], by simp [ArrayData.empty]⟩

/-- Entries that satisfy a condition still do after one is added that does. -/
theorem Array.forall_mem_push
    {α : Type}
    {entries : Array α}
    {entry : α}
    {condition : α → Prop}
    (all : ∀ other ∈ entries, condition other)
    (added : condition entry) :
    ∀ other ∈ entries.push entry, condition other := by
  intro other member
  rcases Array.mem_push.mp member with old | rfl
  · exact all other old
  · exact added

/-- Entries that satisfy a condition still do after one is replaced by one that does. -/
theorem Array.forall_mem_set
    {α : Type}
    {entries : Array α}
    {index : Nat}
    {entry : α}
    {condition : α → Prop}
    (all : ∀ other ∈ entries, condition other)
    (replaced : condition entry) :
    ∀ other ∈ entries.setIfInBounds index entry, condition other := by
  intro other member
  rcases Array.mem_or_eq_of_mem_setIfInBounds member with old | rfl
  · exact all other old
  · exact replaced

namespace Heap.Sound

variable {tree : Tree} {heap : Heap}

/-- What a sound heap is when nothing happens. -/
theorem becomes (sound : heap.Sound tree) : heap.Becomes tree heap :=
  ⟨sound, le_rfl⟩

variable (sound : heap.Sound tree)

include sound

/-- What a cell refers to exists. -/
theorem cell
    (id : CellId) :
    heap.bounds.Cover (heap.cell id).value.refs := by
  unfold Heap.cell
  cases entry : heap.cells[id.index]? with
  | none => exact Bounds.cover_nil
  | some cell => exact sound.cells cell (Array.mem_of_getElem? entry)

/-- The elements of an array exist. -/
theorem array
    (id : ArrayId) :
    (heap.array id).Sound heap.bounds := by
  unfold Heap.array
  cases entry : heap.arrays[id.index]? with
  | none => exact ArrayData.sound_empty _ _ _
  | some array => exact sound.arrays array (Array.mem_of_getElem? entry)

/-- The fields of an instance exist. -/
theorem fields
    (id : ObjectId) :
    ∀ field ∈ (heap.object id).fields, field.index < heap.bounds.cells := by
  unfold Heap.object
  cases entry : heap.objects[id.index]? with
  | none => exact fun field member => absurd member (Array.not_mem_empty field)
  | some object => exact (sound.objects object (Array.mem_of_getElem? entry)).fields

/-- A new cell. -/
theorem addCell
    {cell : Cell}
    (covered : heap.bounds.Cover cell.value.refs) :
    heap.Becomes tree (heap.addCell cell).2 ∧
      (heap.addCell cell).1.index < (heap.addCell cell).2.bounds.cells := by
  have grown : heap.bounds ≤ (heap.addCell cell).2.bounds := by
    refine ⟨?_, Nat.le_refl _, Nat.le_refl _⟩
    simp [Heap.bounds, Heap.addCell]
  refine ⟨⟨⟨?_, fun array member => (sound.arrays array member).mono grown,
    fun object member => (sound.objects object member).mono grown⟩, grown⟩, ?_⟩
  · exact Array.forall_mem_push (fun other member => (sound.cells other member).mono grown)
      (covered.mono grown)
  · simp [Heap.bounds, Heap.addCell]

/-- A new array. -/
theorem addArray
    {array : ArrayData}
    (arraySound : array.Sound heap.bounds) :
    heap.Becomes tree (heap.addArray array).2 ∧
      (heap.addArray array).1.index < (heap.addArray array).2.bounds.arrays := by
  have grown : heap.bounds ≤ (heap.addArray array).2.bounds := by
    refine ⟨Nat.le_refl _, ?_, Nat.le_refl _⟩
    simp [Heap.bounds, Heap.addArray]
  refine ⟨⟨⟨fun cell member => (sound.cells cell member).mono grown, ?_,
    fun object member => (sound.objects object member).mono grown⟩, grown⟩, ?_⟩
  · exact Array.forall_mem_push (fun other member => (sound.arrays other member).mono grown)
      (arraySound.mono grown)
  · simp [Heap.bounds, Heap.addArray]

/-- A new instance. -/
theorem addObject
    {object : Instance}
    (objectSound : object.Sound tree heap.bounds) :
    heap.Becomes tree (heap.addObject object).2 ∧
      (heap.addObject object).1.index < (heap.addObject object).2.bounds.objects := by
  have grown : heap.bounds ≤ (heap.addObject object).2.bounds := by
    refine ⟨Nat.le_refl _, Nat.le_refl _, ?_⟩
    simp [Heap.bounds, Heap.addObject]
  refine ⟨⟨⟨fun cell member => (sound.cells cell member).mono grown,
    fun array member => (sound.arrays array member).mono grown, ?_⟩, grown⟩, ?_⟩
  · exact Array.forall_mem_push (fun other member => (sound.objects other member).mono grown)
      (objectSound.mono grown)
  · simp [Heap.bounds, Heap.addObject]

/-- A replaced cell. -/
theorem setCell
    (id : CellId)
    {cell : Cell}
    (covered : heap.bounds.Cover cell.value.refs) :
    (heap.setCell id cell).Sound tree ∧ (heap.setCell id cell).bounds = heap.bounds := by
  have same : (heap.setCell id cell).bounds = heap.bounds := by
    simp [Heap.bounds, Heap.setCell]
  refine ⟨⟨?_, ?_, ?_⟩, same⟩ <;> rw [same]
  · exact Array.forall_mem_set sound.cells covered
  · exact sound.arrays
  · exact sound.objects

/-- A replaced array. -/
theorem setArray
    (id : ArrayId)
    {array : ArrayData}
    (arraySound : array.Sound heap.bounds) :
    (heap.setArray id array).Sound tree ∧ (heap.setArray id array).bounds = heap.bounds := by
  have same : (heap.setArray id array).bounds = heap.bounds := by
    simp [Heap.bounds, Heap.setArray]
  refine ⟨⟨?_, ?_, ?_⟩, same⟩ <;> rw [same]
  · exact sound.cells
  · exact Array.forall_mem_set sound.arrays arraySound
  · exact sound.objects

/-- A replaced open file of an instance. -/
theorem setOpenFile
    (id : ObjectId)
    (openFile : Option FileHandle) :
    (heap.setObject id { heap.object id with openFile }).Sound tree ∧
      (heap.setObject id { heap.object id with openFile }).bounds = heap.bounds := by
  have same : (heap.setObject id { heap.object id with openFile }).bounds = heap.bounds := by
    simp [Heap.bounds, Heap.setObject]
  refine ⟨⟨?_, ?_, ?_⟩, same⟩ <;> rw [same]
  · exact sound.cells
  · exact sound.arrays
  · cases entry : heap.objects[id.index]? with
    | none =>
        have outside : heap.objects.size ≤ id.index := by simpa using entry
        simpa [Heap.setObject, Array.setIfInBounds, Nat.not_lt.mpr outside] using sound.objects
    | some object =>
        have known := sound.objects object (Array.mem_of_getElem? entry)
        refine Array.forall_mem_set sound.objects ?_
        simp only [Heap.object, entry, Option.getD_some]
        exact ⟨known.fields, known.layout, known.count⟩

/-- Several new cells. -/
theorem addCells
    {cells : List Cell}
    (covered : ∀ cell ∈ cells, heap.bounds.Cover cell.value.refs) :
    heap.Becomes tree (heap.addCells cells).2 ∧
      (∀ id ∈ (heap.addCells cells).1, id.index < (heap.addCells cells).2.bounds.cells) ∧
      (heap.addCells cells).1.size = cells.length := by
  induction cells generalizing heap with
  | nil => exact ⟨sound.becomes, by simp [Heap.addCells], rfl⟩
  | cons cell rest inductionHypothesis =>
      obtain ⟨added, within⟩ := sound.addCell (covered cell (List.mem_cons_self ..))
      obtain ⟨others, othersWithin, size⟩ :=
        inductionHypothesis added.sound fun other member =>
          (covered other (List.mem_cons_of_mem _ member)).mono added.grown
      refine ⟨added.trans others, ?_, ?_⟩
      · intro id member
        simp only [Heap.addCells, Array.mem_append, Array.mem_singleton] at member
        rcases member with rfl | member
        · exact Nat.lt_of_lt_of_le within others.grown.cells
        · exact othersWithin id member
      · simp only [Heap.addCells, Array.size_append, size, List.length_cons]
        simp [Nat.add_comm]

omit sound in
/-- Freshly declared cells refer to nothing. -/
@[simp] theorem refs_declared
    (ty : Ty) :
    (Cell.declared ty).value.refs = [] := by
  unfold Cell.declared
  split <;> rfl

omit sound in
/-- A class has as many fields as its layout counts. -/
theorem length_allFields
    (layout : ClassLayout) :
    layout.allFields.length = layout.fieldCount := by
  unfold ClassLayout.allFields ClassLayout.fieldCount
  induction layout.levels with
  | nil => rfl
  | cons level rest inductionHypothesis =>
      simp only [List.reverse_cons, List.flatMap_append, List.length_append,
        inductionHypothesis, ClassLayout.countFields, List.foldr_cons]
      simp [Nat.add_comm]

/-- A new instance of a class of the tree. -/
theorem newInstance
    {layout : ClassLayout}
    (known : tree.layout? layout.id = some layout) :
    heap.Becomes tree (heap.newInstance layout).2 ∧
      (heap.newInstance layout).1.index < (heap.newInstance layout).2.bounds.objects := by
  let declared := layout.allFields.map fun field => Cell.declared field.ty
  obtain ⟨added, within, size⟩ :
      heap.Becomes tree (heap.addCells declared).2 ∧
        (∀ id ∈ (heap.addCells declared).1,
          id.index < (heap.addCells declared).2.bounds.cells) ∧
        (heap.addCells declared).1.size = declared.length :=
    sound.addCells (by simp [declared])
  have placed : Instance.Sound tree (heap.addCells declared).2.bounds
      ⟨layout, (heap.addCells declared).1, none⟩ :=
    ⟨within, known, by simp [size, declared, length_allFields]⟩
  obtain ⟨becomes, objectWithin⟩ := added.sound.addObject placed
  exact ⟨added.trans becomes, objectWithin⟩

/-- A variable declared without a value. -/
theorem freshCell
    (ty : Ty)
    (limits : Limits) :
    heap.Becomes tree (heap.freshCell ty limits).2 ∧
      (heap.freshCell ty limits).2.bounds.Cover (heap.freshCell ty limits).1.value.refs := by
  unfold Heap.freshCell
  split
  · next element =>
      split
      · exact ⟨sound.becomes, by simp⟩
      · obtain ⟨added, within⟩ :=
          sound.addArray (ArrayData.sound_empty _ element limits)
        exact ⟨added, by simpa [Cell.withDefault, Value.refs] using within⟩
  · exact ⟨sound.becomes, by simp⟩

/-- A new cell of a variable declared without a value. -/
theorem addFresh
    (ty : Ty)
    (limits : Limits) :
    heap.Becomes tree (heap.addFresh ty limits).2 ∧
      (heap.addFresh ty limits).1.index < (heap.addFresh ty limits).2.bounds.cells := by
  obtain ⟨fresh, covered⟩ := sound.freshCell ty limits
  obtain ⟨added, within⟩ := fresh.sound.addCell covered
  exact ⟨fresh.trans added, within⟩

omit sound in
/-- The zero of a type refers to nothing. -/
theorem refs_zero
    (ty : Ty) :
    ty.zero.refs = [] := by
  cases ty <;> rfl

/-- A default element of an array. -/
theorem newElement
    (array : ArrayData) :
    heap.Becomes tree (heap.newElement array).2 ∧
      (heap.newElement array).1.index < (heap.newElement array).2.bounds.cells := by
  have covered
      {bounds : Bounds}
      {id : ArrayId}
      (ty : Ty)
      (within : id.index < bounds.arrays) :
      bounds.Cover (Cell.withDefault ty (.array id)).value.refs := by
    simpa [Cell.withDefault, Value.refs] using within
  unfold Heap.newElement
  split
  · next inner _ =>
      obtain ⟨nested, within⟩ :=
        sound.addArray (ArrayData.sound_empty _ inner array.limits.tail)
      obtain ⟨added, cellWithin⟩ :=
        nested.sound.addCell (covered array.element within)
      exact ⟨nested.trans added, cellWithin⟩
  · exact sound.addCell (by simp [Cell.zeroed, Cell.withDefault, refs_zero])

/-- Default elements at the end of an array, as many as an array can have. -/
theorem appendElements
    {id : ArrayId}
    {count : Nat}
    (fits : (heap.array id).items.size + count ≤ ArrayData.greatestIndex + 1) :
    heap.Becomes tree (heap.appendElements id count) := by
  induction count generalizing heap with
  | zero => exact sound.becomes
  | succ count inductionHypothesis =>
      obtain ⟨added, within⟩ := sound.newElement (heap.array id)
      let longer : ArrayData :=
        { heap.array id with
          items := (heap.array id).items.push (heap.newElement (heap.array id)).1 }
      have longerSound : longer.Sound (heap.newElement (heap.array id)).2.bounds :=
        ⟨Array.forall_mem_push (((sound.array id).mono added.grown).items) within, by
          simp only [longer, Array.size_push]
          omega⟩
      obtain ⟨stored, same⟩ := added.sound.setArray id longerSound
      have becomes :
          heap.Becomes tree ((heap.newElement (heap.array id)).2.setArray id longer) :=
        ⟨stored, same ▸ added.grown⟩
      refine becomes.trans (inductionHypothesis stored ?_)
      unfold Heap.array Heap.setArray
      rw [Array.getElem?_setIfInBounds_self]
      split
      · simp only [Option.getD_some, longer, Array.size_push]
        omega
      · simp only [Option.getD_none]
        change 0 + count ≤ _
        omega

/-- The cell of an element up to which an array grows. -/
theorem growTo
    {id : ArrayId}
    {position : Nat}
    (fits : position ≤ ArrayData.greatestIndex) :
    heap.Becomes tree (heap.growTo id position).2 ∧
      ∀ cell, (heap.growTo id position).1 = some cell →
        cell.index < (heap.growTo id position).2.bounds.cells := by
  have size := (sound.array id).size
  have grown :
      heap.Becomes tree
        (heap.appendElements id (position + 1 - (heap.array id).items.size)) :=
    sound.appendElements (by omega)
  refine ⟨grown, fun cell found => ?_⟩
  exact (grown.sound.array id).items cell (Array.mem_of_getElem? found)

omit sound in
/-- The position of an element that can be written is within all arrays. -/
theorem positionForWrite_le
    {id : ArrayId}
    {index : Int64}
    {position : Nat}
    (found : heap.positionForWrite id index = .ok position) :
    position ≤ ArrayData.greatestIndex := by
  simp only [Heap.positionForWrite] at found
  split at found
  · simp at found
  · next free =>
      simp only [Bool.or_eq_true, decide_eq_true_eq, not_or] at free
      cases found
      omega

/-- A cell at the end of an array. -/
theorem pushElement
    {id : ArrayId}
    {cell : CellId}
    (within : cell.index < heap.bounds.cells)
    {after : Heap}
    (pushed : heap.pushElement id cell = .ok after) :
    after.Sound tree ∧ after.bounds = heap.bounds := by
  simp only [Heap.pushElement] at pushed
  split at pushed
  · simp at pushed
  · next free =>
      simp only [Bool.or_eq_true, decide_eq_true_eq, not_or] at free
      cases pushed
      refine sound.setArray id ⟨Array.forall_mem_push (sound.array id).items within, ?_⟩
      simp only [Array.size_push]
      omega

/-- Several cells at the end of an array. -/
theorem pushElements
    {id : ArrayId}
    {cells : List CellId}
    (within : ∀ cell ∈ cells, cell.index < heap.bounds.cells)
    {after : Heap}
    (pushed : heap.pushElements id cells = .ok after) :
    after.Sound tree ∧ after.bounds = heap.bounds := by
  induction cells generalizing heap with
  | nil =>
      cases pushed
      exact ⟨sound, rfl⟩
  | cons cell rest inductionHypothesis =>
      unfold Heap.pushElements at pushed
      cases first : heap.pushElement id cell with
      | error code => simp [first, Bind.bind, Except.bind] at pushed
      | ok next =>
          rw [first] at pushed
          obtain ⟨nextSound, same⟩ :=
            sound.pushElement (within cell (List.mem_cons_self ..)) first
          obtain ⟨afterSound, afterSame⟩ :=
            inductionHypothesis nextSound
              (fun other member => same ▸ within other (List.mem_cons_of_mem _ member)) pushed
          exact ⟨afterSound, afterSame.trans same⟩

/-- An initial value as a declaration with limits holds it. -/
theorem bounded
    {value : Value}
    (covered : heap.bounds.Cover value.refs)
    {limits : Limits}
    {held : Value}
    {after : Heap}
    (placed : heap.bounded value limits = .ok (held, after)) :
    heap.Becomes tree after ∧ after.bounds.Cover held.refs := by
  unfold Heap.bounded at placed
  split at placed
  · next source limit rest =>
      dsimp only at placed
      obtain ⟨added, within⟩ :=
        sound.addArray
          (ArrayData.sound_empty _ (heap.array source).element (some limit :: rest))
      revert placed
      cases pushed : Heap.pushElements _ _ _ with
      | error code => intro placed; simp [Bind.bind, Except.bind] at placed
      | ok filled =>
          intro placed
          cases placed
          have items := (sound.array source).items
          obtain ⟨afterSound, same⟩ :=
            added.sound.pushElements
              (fun cell member =>
                Nat.lt_of_lt_of_le (items cell (by simpa using member)) added.grown.cells)
              pushed
          refine ⟨⟨afterSound, same ▸ added.grown⟩, ?_⟩
          rw [same]
          simpa [Value.refs] using within
  · cases placed
    exact ⟨sound.becomes, covered⟩

end Heap.Sound

/-! ## Converted values -/

/-- A conversion delivers no reference but the one it was given. -/
theorem Heap.convertWhile_cover
    {heap : Heap}
    {inUse : Option CellId}
    {value result : Value}
    {source target : Ty}
    {bounds : Bounds}
    (covered : bounds.Cover value.refs)
    (converted : heap.convertWhile inUse value source target = .ok result) :
    bounds.Cover result.refs := by
  have text (outcome : Checked String) (texted : outcome.map Value.str = .ok result) :
      bounds.Cover result.refs := by
    cases outcome with
    | ok text => cases texted; exact Bounds.cover_nil
    | error fault => simp [Except.map] at texted
  unfold Heap.convertWhile at converted
  cases value <;> cases target <;> dsimp only at converted
  all_goals first
    | exact text _ converted
    | (cases converted; done)
    | (cases converted; first | exact Bounds.cover_nil | exact covered)
    | (split at converted <;> cases converted; done)
    | (cases converted; split <;> first | exact covered | exact Bounds.cover_nil)

/-- What a cell holds after a store refers to nothing but what the stored value does. -/
theorem Cell.stored_cover
    {cell result : Cell}
    {heap : Heap}
    {inUse : Option CellId}
    {value : Value}
    {source : Ty}
    {bounds : Bounds}
    (covered : bounds.Cover value.refs)
    (stored : cell.stored heap inUse value source = .ok result) :
    bounds.Cover result.value.refs := by
  unfold Cell.stored at stored
  cases converted : heap.convertWhile inUse value source cell.ty with
  | error fault => simp [converted, Except.map] at stored
  | ok held =>
      rw [converted] at stored
      cases stored
      exact Heap.convertWhile_cover covered converted

namespace Heap.Sound

variable {tree : Tree} {heap : Heap}

/-- A heap after a store. -/
theorem assign
    (sound : heap.Sound tree)
    {id : CellId}
    {value : Value}
    (covered : heap.bounds.Cover value.refs)
    {after : Heap}
    (assigned : heap.assign id value = .ok after) :
    after.Sound tree ∧ after.bounds = heap.bounds := by
  unfold Heap.assign Heap.store at assigned
  cases stored : (heap.cell id).stored heap (some id) value (heap.cell id).ty with
  | error fault => simp [stored, Except.map] at assigned
  | ok cell =>
      rw [stored] at assigned
      cases assigned
      exact sound.setCell id (Cell.stored_cover covered stored)

/-- The value of a cell. -/
theorem read
    (sound : heap.Sound tree)
    {id : CellId}
    {value : Value}
    (found : heap.read id = .ok value) :
    heap.bounds.Cover value.refs := by
  unfold Heap.read Cell.get at found
  split at found
  · simp at found
  · cases found
    exact sound.cell id

end Heap.Sound

end BotScript
