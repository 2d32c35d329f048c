import BotScript.Proofs.Restoration

namespace BotScript

/-!
# Saved and restored machines

Saving numbers the parts that a machine can reach, and restoring puts them at
the positions of their numbers.  The restored machine lies in the saved one,
and what it leaves behind fades unless it holds itself in use.
-/

open Restored (Bounds Recovers)

/-! ## Listed positions -/

/-- The position of an entry in a list of positions; further entries go behind a table. -/
def spread (positions : Array Nat) (size index : Nat) : Nat :=
  (positions[index]?).getD (size + (index - positions.size))

section

variable {positions : Array Nat} {size : Nat}

/-- A listed position. -/
theorem spread_listed
    {index position : Nat}
    (found : positions[index]? = some position) :
    spread positions size index = position := by
  simp [spread, found]

/-- A position behind the table. -/
theorem spread_behind
    {index : Nat}
    (behind : positions.size ≤ index) :
    spread positions size index = size + (index - positions.size) := by
  simp [spread, Array.getElem?_eq_none behind]

/-- Different entries have different positions. -/
theorem spread_injective
    (inside : ∀ index position : Nat, positions[index]? = some position → position < size)
    (unique : ∀ first second position : Nat,
      positions[first]? = some position → positions[second]? = some position → first = second) :
    Function.Injective (spread positions size) := by
  intro first second same
  cases firstFound : positions[first]? with
  | some position =>
      rw [spread_listed firstFound] at same
      cases secondFound : positions[second]? with
      | some other =>
          rw [spread_listed secondFound] at same
          exact unique first second position firstFound (same ▸ secondFound)
      | none =>
          rw [spread_behind (Array.getElem?_eq_none_iff.mp secondFound)] at same
          have bound := inside first position firstFound
          omega
  | none =>
      have behind := Array.getElem?_eq_none_iff.mp firstFound
      rw [spread_behind behind] at same
      cases secondFound : positions[second]? with
      | some other =>
          rw [spread_listed secondFound] at same
          have bound := inside second other secondFound
          omega
      | none =>
          have alsoBehind := Array.getElem?_eq_none_iff.mp secondFound
          rw [spread_behind alsoBehind] at same
          omega

/-- The entries at listed positions lie in the table. -/
theorem tableEmbeds_spread
    {α : Type}
    {rename : α → α}
    {inner outer : Array α}
    (moved : inner.toList.map (some ∘ rename) = positions.toList.map (outer[·]?)) :
    TableEmbeds (spread positions outer.size) rename (fun index => outer[index]?) inner outer := by
  have sizes : inner.size = positions.size := by
    simpa using congrArg List.length moved
  refine ⟨fun index => ?_, fun count => ?_, fun _ _ => rfl⟩
  · cases found : positions[index]? with
    | some position =>
        have entry := congrArg (·[index]?) moved
        simp only [List.getElem?_map, Array.getElem?_toList, found, Option.map_some] at entry
        rw [spread_listed found]
        cases innerEntry : inner[index]? with
        | none => simp [innerEntry] at entry
        | some value =>
            simp only [innerEntry, Option.map_some, Function.comp_apply, Option.some.injEq] at entry
            exact entry.symm
    | none =>
        have behind := Array.getElem?_eq_none_iff.mp found
        rw [spread_behind behind, Array.getElem?_eq_none (Nat.le_add_right ..),
          Array.getElem?_eq_none (sizes ▸ behind)]
        rfl
  · rw [spread_behind (by omega)]
    omega

end

/-! ## The relocation of a snapshot -/

namespace Numbering

variable {heap : Heap} {roots : List HeapRef} {numbering : Numbering}

/-- Every part with a number is moved to where it was when it was numbered. -/
def relocation (numbering : Numbering) (valid : Valid heap roots [] numbering) : Relocation where
  cellAt := spread (numbering.cells.map (·.index)) heap.cells.size
  arrayAt := spread (numbering.arrays.map (·.index)) heap.arrays.size
  objectAt := spread (numbering.objects.map (·.index)) heap.objects.size
  idle := heap
  cellAt_injective := by
    refine spread_injective (fun index position found => ?_) fun first second position => ?_
    · simp only [Array.getElem?_map, Option.map_eq_some_iff] at found
      obtain ⟨id, held, rfl⟩ := found
      exact (valid.held index (.cell id) held).1
    · simp only [Array.getElem?_map, Option.map_eq_some_iff]
      rintro ⟨⟨id⟩, held, rfl⟩ ⟨⟨_⟩, alsoHeld, rfl⟩
      exact valid.unique first second (.cell _) held alsoHeld
  arrayAt_injective := by
    refine spread_injective (fun index position found => ?_) fun first second position => ?_
    · simp only [Array.getElem?_map, Option.map_eq_some_iff] at found
      obtain ⟨id, held, rfl⟩ := found
      exact (valid.held index (.array id) held).1
    · simp only [Array.getElem?_map, Option.map_eq_some_iff]
      rintro ⟨⟨id⟩, held, rfl⟩ ⟨⟨_⟩, alsoHeld, rfl⟩
      exact valid.unique first second (.array _) held alsoHeld
  objectAt_injective := by
    refine spread_injective (fun index position found => ?_) fun first second position => ?_
    · simp only [Array.getElem?_map, Option.map_eq_some_iff] at found
      obtain ⟨id, held, rfl⟩ := found
      exact (valid.held index (.object id) held).1
    · simp only [Array.getElem?_map, Option.map_eq_some_iff]
      rintro ⟨⟨id⟩, held, rfl⟩ ⟨⟨_⟩, alsoHeld, rfl⟩
      exact valid.unique first second (.object _) held alsoHeld

/-- How many parts of each kind have a number. -/
def bounds (numbering : Numbering) : Bounds :=
  ⟨numbering.cells.size, numbering.arrays.size, numbering.objects.size⟩

/-- Whether a part has a number. -/
def Lists (numbering : Numbering) (ref : HeapRef) : Prop :=
  ∃ position, numbering.Holds position ref

/-- No more parts of a kind have a number than there are numbers. -/
structure Fits (numbering : Numbering) : Prop where
  cells : numbering.cells.size ≤ UInt32.size
  arrays : numbering.arrays.size ≤ UInt32.size
  objects : numbering.objects.size ≤ UInt32.size

section

variable (valid : Valid heap roots [] numbering)

include valid

/-- A part has the number of its position, or a smaller one if the numbers have run out. -/
theorem Valid.numberOf_held
    {position : Nat}
    {ref : HeapRef}
    (held : numbering.Holds position ref) :
    (numbering.numberOf heap ref).toNat ≤ position ∧
      (position < UInt32.size → (numbering.numberOf heap ref).toNat = position) := by
  have found := (valid.held position ref held).2
  rw [numberOf, show (numbering.numbers[heap.partIndex ref]?).join =
    some (UInt32.ofNat position) from found, Option.getD_some]
  refine ⟨?_, UInt32.toNat_ofNat_of_lt'⟩
  rw [UInt32.toNat_ofNat']
  exact Nat.mod_le ..

/-- The numbers of a snapshot are in range and, if they fit, name the parts they are given to. -/
theorem Valid.naming :
    (numbering.relocation valid).Naming (numbering.numberOf heap) numbering.bounds
      numbering.Lists numbering.Fits := by
  refine ⟨?_, ?_, ?_⟩
  · rintro id ⟨position, held⟩
    obtain ⟨most, number⟩ := valid.numberOf_held held
    have inside : position < numbering.cells.size := (Array.getElem?_eq_some_iff.mp held).1
    refine ⟨Nat.lt_of_le_of_lt most inside, fun fits => ?_⟩
    rw [number (Nat.lt_of_lt_of_le inside fits.cells)]
    refine congrArg CellId.mk (spread_listed ?_)
    rw [Array.getElem?_map, show numbering.cells[position]? = some id from held]
    rfl
  · rintro id ⟨position, held⟩
    obtain ⟨most, number⟩ := valid.numberOf_held held
    have inside : position < numbering.arrays.size := (Array.getElem?_eq_some_iff.mp held).1
    refine ⟨Nat.lt_of_le_of_lt most inside, fun fits => ?_⟩
    rw [number (Nat.lt_of_lt_of_le inside fits.arrays)]
    refine congrArg ArrayId.mk (spread_listed ?_)
    rw [Array.getElem?_map, show numbering.arrays[position]? = some id from held]
    rfl
  · rintro id ⟨position, held⟩
    obtain ⟨most, number⟩ := valid.numberOf_held held
    have inside : position < numbering.objects.size := (Array.getElem?_eq_some_iff.mp held).1
    refine ⟨Nat.lt_of_le_of_lt most inside, fun fits => ?_⟩
    rw [number (Nat.lt_of_lt_of_le inside fits.objects)]
    refine congrArg ObjectId.mk (spread_listed ?_)
    rw [Array.getElem?_map, show numbering.objects[position]? = some id from held]
    rfl

/-- What a part with a number refers to has a number. -/
theorem Valid.lists_refsOf
    (done : numbering.pending = [])
    {ref : HeapRef}
    (listed : numbering.Lists ref) :
    ∀ other ∈ refsOf heap ref, numbering.Lists other := by
  obtain ⟨position, held⟩ := listed
  rcases valid.closed position ref held with member | member | all
  · simp [done] at member
  · simp at member
  · exact all

/-- Everything that can be reached has a number. -/
theorem Valid.lists_of_reachable
    (done : numbering.pending = [])
    (rooted : ∀ ref ∈ roots, numbering.Lists ref)
    {ref : HeapRef}
    (reachable : heap.Reachable roots ref) :
    numbering.Lists ref := by
  induction reachable with
  | root member => exact rooted _ member
  | part _ member inductionHypothesis => exact valid.lists_refsOf done inductionHypothesis _ member

/-- What is moved to a place on the heap has a number. -/
theorem Valid.lists_of_within
    {origin : HeapRef}
    (within : ((numbering.relocation valid).ref origin).Within heap.bounds) :
    numbering.Lists ((numbering.relocation valid).ref origin) := by
  have listed {positions : Array Nat} {size index : Nat}
      (inside : spread positions size index < size) :
      ∃ position : Nat, positions[position]? = some (spread positions size index) := by
    cases found : positions[index]? with
    | some position => exact ⟨index, by rw [spread_listed found, found]⟩
    | none =>
        rw [spread_behind (Array.getElem?_eq_none_iff.mp found)] at inside
        omega
  cases origin with
  | cell id =>
      obtain ⟨position, held⟩ := listed (within : spread _ heap.cells.size id.index < _)
      rw [Array.getElem?_map, Option.map_eq_some_iff] at held
      obtain ⟨other, held, same⟩ := held
      exact ⟨position, held.trans (congrArg (fun index => some (CellId.mk index)) same)⟩
  | array id =>
      obtain ⟨position, held⟩ := listed (within : spread _ heap.arrays.size id.index < _)
      rw [Array.getElem?_map, Option.map_eq_some_iff] at held
      obtain ⟨other, held, same⟩ := held
      exact ⟨position, held.trans (congrArg (fun index => some (ArrayId.mk index)) same)⟩
  | object id =>
      obtain ⟨position, held⟩ := listed (within : spread _ heap.objects.size id.index < _)
      rw [Array.getElem?_map, Option.map_eq_some_iff] at held
      obtain ⟨other, held, same⟩ := held
      exact ⟨position, held.trans (congrArg (fun index => some (ObjectId.mk index)) same)⟩

end

/-- What is left behind fades unless it holds itself in use and something that can be reached. -/
theorem Valid.fading
    {tree : Tree}
    (sound : heap.Sound tree)
    (valid : Valid heap roots [] numbering)
    (fits : numbering.Fits)
    (done : numbering.pending = [])
    (rooted : ∀ ref ∈ roots, numbering.Lists ref)
    (unused : ∀ holder : HeapRef, holder.Within heap.bounds → ¬ heap.Reachable roots holder →
      ∀ ref ∈ refsOf heap holder, heap.Reachable roots ref → heap.Unused roots holder)
    (unopened : ∀ object ∈ heap.objects, object.openFile = none) :
    (numbering.relocation valid).Fading := by
  have naming := valid.naming
  have unlisted {ref : HeapRef} (stray : (numbering.relocation valid).Stray ref) :
      ¬ numbering.Lists ref := by
    intro listed
    cases ref with
    | cell id => exact stray (.cell _) (congrArg HeapRef.cell ((naming.cell id listed).2 fits))
    | array id => exact stray (.array _) (congrArg HeapRef.array ((naming.array id listed).2 fits))
    | object id => exact stray (.object _) (congrArg HeapRef.object ((naming.object id listed).2 fits))
  refine ⟨fun holder stray within origin member => ?_, fun id _ => ?_⟩
  · obtain ⟨position, held⟩ := valid.lists_of_within (sound.refsOf holder _ member)
    have lost := unused holder within
      (fun reachable => unlisted stray (valid.lists_of_reachable done rooted reachable))
      _ member (valid.reachable position _ held)
    clear stray within member
    induction lost with
    | intro _ _ inductionHypothesis =>
        exact .intro fun holder _ holderWithin member =>
          inductionHypothesis holder holderWithin member
  · change (heap.object id).openFile = none
    unfold Heap.object
    cases found : heap.objects[id.index]? with
    | none => rfl
    | some object => exact unopened object (Array.mem_of_getElem? found)

end Numbering

/-! ## The restored heap -/

namespace Machine

variable {tree : Tree} {machine : Machine}

/-- The numbers of the parts that a machine can reach. -/
def numbering (machine : Machine) : Numbering :=
  Numbering.ofRoots machine.memory.world.heap machine.refs

/-- The numbers of a sound machine are valid, and they go to everything it can reach. -/
theorem Sound.numbering
    (sound : machine.Sound tree) :
    Numbering.Valid machine.memory.world.heap machine.refs [] machine.numbering ∧
      machine.numbering.pending = [] ∧ ∀ ref ∈ machine.refs, machine.numbering.Lists ref :=
  Numbering.valid_ofRoots sound.memory.heap sound.refs

end Machine

namespace Numbering

variable {tree : Tree} {heap : Heap} {roots : List HeapRef} {numbering : Numbering}

/-- A listed cell. -/
theorem lists_cell
    {id : CellId}
    (member : id ∈ numbering.cells) :
    numbering.Lists (.cell id) :=
  Array.mem_iff_getElem?.mp member

/-- A listed array. -/
theorem lists_array
    {id : ArrayId}
    (member : id ∈ numbering.arrays) :
    numbering.Lists (.array id) :=
  Array.mem_iff_getElem?.mp member

/-- A listed instance. -/
theorem lists_object
    {id : ObjectId}
    (member : id ∈ numbering.objects) :
    numbering.Lists (.object id) :=
  Array.mem_iff_getElem?.mp member

/-- A part with a number is on the heap. -/
theorem Valid.within
    (valid : Valid heap roots [] numbering)
    {ref : HeapRef}
    (listed : numbering.Lists ref) :
    ref.Within heap.bounds := by
  obtain ⟨position, held⟩ := listed
  exact (valid.held position ref held).1

/-- An instance with a number is one of those on the heap. -/
theorem Valid.object_mem
    (valid : Valid heap roots [] numbering)
    {id : ObjectId}
    (listed : numbering.Lists (.object id)) :
    heap.object id ∈ heap.objects := by
  have inside : id.index < heap.objects.size := valid.within listed
  unfold Heap.object
  rw [Array.getElem?_eq_getElem inside]
  exact Array.getElem_mem inside

/-- The instances that have a number. -/
theorem Valid.restored_objects
    (sound : heap.Sound tree)
    (unopened : ∀ object ∈ heap.objects, object.openFile = none)
    (valid : Valid heap roots [] numbering)
    (done : numbering.pending = []) :
    Recovers numbering.Fits (List.map (numbering.relocation valid).fields)
      (numbering.objects.toList.map heap.object)
      ((numbering.objects.toList.map fun id =>
        (⟨(heap.object id).layout.id, (heap.object id).fields.toList.map fun id =>
          numbering.numberOf heap (.cell id)⟩ : ObjectRecord)).mapM
        (numbering.bounds.instance? tree)) := by
  rw [List.mapM_map]
  refine Recovers.mapM fun id member => ?_
  have lists : numbering.Lists (.object id) := lists_object (by simpa using member)
  have isMember := valid.object_mem lists
  refine valid.naming.fields (sound.objects _ isMember) (unopened _ isMember) fun field own => ?_
  exact valid.lists_refsOf done lists _ (by simpa [Numbering.refsOf] using own)

/-- The arrays that have a number. -/
theorem Valid.restored_arrays
    (sound : heap.Sound tree)
    (valid : Valid heap roots [] numbering)
    (done : numbering.pending = []) :
    Recovers numbering.Fits (List.map (numbering.relocation valid).elements)
      (numbering.arrays.toList.map heap.array)
      ((numbering.arrays.toList.map fun id =>
        (⟨(heap.array id).element, (heap.array id).limits, (heap.array id).items.toList.map fun id =>
          numbering.numberOf heap (.cell id)⟩ : ArrayRecord)).mapM numbering.bounds.arrayData) := by
  rw [List.mapM_map]
  refine Recovers.mapM fun id member => ?_
  have lists : numbering.Lists (.array id) := lists_array (by simpa using member)
  refine valid.naming.elements (sound.array id) fun item own => ?_
  exact valid.lists_refsOf done lists _ (by simpa [Numbering.refsOf] using own)

/-- The cells that have a number. -/
theorem Valid.restored_cells
    (valid : Valid heap roots [] numbering)
    (done : numbering.pending = []) :
    Recovers numbering.Fits (List.map (numbering.relocation valid).content)
      (numbering.cells.toList.map heap.cell)
      ((numbering.cells.toList.map fun id =>
        (⟨(heap.cell id).ty, (heap.cell id).state,
          .ofValue (numbering.numberOf heap) (heap.cell id).value⟩ : CellRecord)).mapM
        fun record => do
          pure ⟨record.ty, ← numbering.bounds.value record.value, record.state⟩) := by
  rw [List.mapM_map]
  refine Recovers.mapM fun id member => ?_
  have lists : numbering.Lists (.cell id) := lists_cell (by simpa using member)
  exact valid.naming.content (valid.lists_refsOf done lists)

/-- The parts that are read at the listed positions are those of the table. -/
theorem entries_listed
    {Id α : Type}
    [Inhabited α]
    {ids : Array Id}
    {index : Id → Nat}
    {entries : Array α}
    (inside : ∀ id ∈ ids, index id < entries.size) :
    (ids.toList.map fun id => (entries[index id]?).getD default).map some =
      (ids.map index).toList.map fun position => entries[position]? := by
  rw [List.map_map, Array.toList_map, List.map_map]
  refine List.map_congr_left fun id member => ?_
  simp [Array.getElem?_eq_getElem (inside id (by simpa using member))]

/-- The heap of a snapshot is accepted and, if the numbers fit, lies in the heap that was saved. -/
theorem Valid.restored_heap
    (sound : heap.Sound tree)
    (unopened : ∀ object ∈ heap.objects, object.openFile = none)
    (valid : Valid heap roots [] numbering)
    (done : numbering.pending = [])
    {snapshot : Snapshot}
    (cells : snapshot.cells = numbering.cells.toList.map fun id =>
      ⟨(heap.cell id).ty, (heap.cell id).state,
        .ofValue (numbering.numberOf heap) (heap.cell id).value⟩)
    (arrays : snapshot.arrays = numbering.arrays.toList.map fun id =>
      ⟨(heap.array id).element, (heap.array id).limits,
        (heap.array id).items.toList.map fun id => numbering.numberOf heap (.cell id)⟩)
    (objects : snapshot.objects = numbering.objects.toList.map fun id =>
      ⟨(heap.object id).layout.id,
        (heap.object id).fields.toList.map fun id => numbering.numberOf heap (.cell id)⟩) :
    ∃ inner,
      numbering.bounds.heap tree snapshot = .ok inner ∧
        (numbering.Fits → Heap.Embeds (numbering.relocation valid) inner heap) := by
  obtain ⟨innerObjects, objectsOk, objectsMoved⟩ := valid.restored_objects sound unopened done
  obtain ⟨innerArrays, arraysOk, arraysMoved⟩ := valid.restored_arrays sound done
  obtain ⟨innerCells, cellsOk, cellsMoved⟩ := valid.restored_cells done
  refine ⟨⟨innerCells.toArray, innerArrays.toArray, innerObjects.toArray⟩, ?_,
    fun fits => ⟨?_, ?_, ?_⟩⟩
  · unfold Bounds.heap
    rw [objects, arrays, cells, objectsOk, arraysOk, cellsOk]
    rfl
  · refine tableEmbeds_spread ?_
    rw [← List.map_map, cellsMoved fits]
    exact entries_listed fun id member => valid.within (lists_cell member)
  · refine tableEmbeds_spread ?_
    rw [← List.map_map, arraysMoved fits]
    exact entries_listed fun id member => valid.within (lists_array member)
  · refine tableEmbeds_spread ?_
    rw [← List.map_map, objectsMoved fits]
    exact entries_listed fun id member => valid.within (lists_object member)

end Numbering

/-! ## The restored machine -/

/-- How many parts of each kind a snapshot has. -/
def Snapshot.bounds (snapshot : Snapshot) : Bounds :=
  ⟨snapshot.cells.length, snapshot.arrays.length, snapshot.objects.length⟩

namespace Machine

variable {tree : Tree} {machine : Machine}

/-- A snapshot of the same text with the entry function in its place is restored part by part. -/
theorem restore_eq
    {snapshot : Snapshot}
    {entry : FuncId}
    (root : snapshot.frames.head?.map FrameRecord.node = some (.start entry))
    (named : (tree.function? entry).map (·.name) = some snapshot.entry)
    (host : Host) :
    Machine.restore tree snapshot snapshot.signature host = (do
      let heap ← snapshot.bounds.heap tree snapshot
      let statics ← snapshot.bounds.statics tree snapshot.statics
      let activations ← snapshot.activations.mapM (snapshot.bounds.activation tree)
      let frames ← snapshot.bounds.frames tree activations.length none snapshot.frames
      let incoming ← Restored.optional snapshot.bounds.completion snapshot.incoming
      pure
        { memory := ⟨⟨heap, host⟩, activations.toArray, statics⟩
          frames := frames.reverse
          incoming
          outcome := .running
          steps := snapshot.steps }) := by
  obtain ⟨function, found, name⟩ := Option.map_eq_some_iff.mp named
  simp [Machine.restore, Snapshot.bounds, root, found, name]

section Recovered

variable {shift : Relocation} {number : HeapRef → UInt32} {bounds : Bounds}
  {listed : HeapRef → Prop} {faithful : Prop}

/-- The static fields of a sound machine. -/
theorem Sound.restored_statics
    (sound : machine.Sound tree)
    (naming : shift.Naming number bounds listed faithful)
    (rooted : ∀ ref ∈ machine.refs, listed ref) :
    Recovers faithful (Array.map (Array.map shift.cell)) machine.memory.statics
      (bounds.statics tree (machine.memory.statics.toList.map fun fields =>
        fields.toList.map fun id => number (.cell id))) := by
  have shape :
      ((machine.memory.statics.toList.map fun fields =>
          fields.toList.map fun id => number (.cell id)).map List.length ==
        tree.classes.toList.map fun owner => owner.statics.length) = true := by
    rw [← sound.memory.staticShape]
    simp [Function.comp_def]
  have cells :
      Recovers faithful (List.map (Array.map shift.cell)) machine.memory.statics.toList
        ((machine.memory.statics.toList.map fun fields =>
          fields.toList.map fun id => number (.cell id)).mapM bounds.cellArray) := by
    refine Recovers.mapM_map fun fields member =>
      naming.cellArray fun id own => rooted (.cell id) ?_
    simp only [Machine.refs, Memory.refs, List.mem_append, List.mem_flatMap, List.mem_map,
      Array.mem_toList_iff]
    exact .inl (.inl (.inl (.inl ⟨fields, by simpa using member, id, own, rfl⟩)))
  unfold Bounds.statics
  rw [Restored.demand_ok shape]
  refine cells.bind fun recovered moved => ⟨recovered.toArray, rfl, fun holds => ?_⟩
  refine Array.toList_inj.mp ?_
  simpa using moved holds

/-- The activations of a sound machine. -/
theorem Sound.restored_activations
    (sound : machine.Sound tree)
    (naming : shift.Naming number bounds listed faithful)
    (rooted : ∀ ref ∈ machine.refs, listed ref) :
    Recovers faithful (List.map shift.activation) machine.memory.activations.toList
      ((machine.memory.activations.toList.map fun activation =>
        (⟨activation.function, activation.this.map fun id => number (.object id),
          activation.locals.toList.map fun id => number (.cell id)⟩ : ActivationRecord)).mapM
        (bounds.activation tree)) := by
  refine Recovers.mapM_map fun activation member =>
    naming.activationOf (sound.memory.activations activation (by simpa using member))
      fun ref own => rooted ref ?_
  simp only [Machine.refs, Memory.refs, List.mem_append, List.mem_flatMap]
  exact .inl (.inl (.inl (.inr ⟨activation, member, own⟩)))

/-- The frames of a sound machine whose innermost one is at a step that is known. -/
theorem Sound.restored_frames
    (sound : machine.Sound tree)
    (naming : shift.Naming number bounds listed faithful)
    (rooted : ∀ ref ∈ machine.refs, listed ref)
    (goesOn : machine.frames ≠ [])
    (known : ∀ top, machine.frames.head? = some top → (top.node.lastState? tree).isSome) :
    Recovers faithful (List.map shift.frame) machine.frames.reverse
      (bounds.frames tree machine.memory.activations.size none
        (machine.frames.reverse.map (.ofFrame number))) := by
  refine naming.frames (sound.chain goesOn) known (fun frame member ref own => rooted ref ?_)
    (sound.chain goesOn).act_lt
  simp only [Machine.refs, List.mem_append, List.mem_flatMap, List.mem_reverse]
  exact .inl (.inl (.inr ⟨frame, member, own⟩))

/-- What the innermost frame of a machine is handed. -/
theorem restored_incoming
    (naming : shift.Naming number bounds listed faithful)
    (rooted : ∀ ref ∈ machine.refs, listed ref) :
    Recovers faithful (Option.map shift.completion) machine.incoming
      (Restored.optional bounds.completion (machine.incoming.map (.ofCompletion number))) := by
  cases held : machine.incoming with
  | none => exact ⟨none, rfl, fun _ => rfl⟩
  | some completion =>
      have recovers := naming.completion fun ref own => rooted ref (by
        simp only [Machine.refs, List.mem_append, List.mem_flatMap, Option.mem_toList]
        exact .inl (.inr ⟨completion, held, own⟩))
      exact recovers.map fun recovered moved => congrArg some moved

end Recovered

/--
A suspended machine is saved and restored over the same state of the host.  If
the numbers fit, what comes back lies in the machine.
-/
theorem Sound.restore_record
    (sound : machine.Sound tree)
    (running : machine.outcome = .running)
    (goesOn : machine.frames ≠ [])
    (known : ∀ top, machine.frames.head? = some top → (top.node.lastState? tree).isSome)
    (unopened : ∀ object ∈ machine.memory.world.heap.objects, object.openFile = none)
    (signature : UInt32) :
    ∃ snapshot restored,
      machine.save tree signature = .ok snapshot ∧
        Machine.restore tree snapshot signature machine.host = .ok restored ∧
        (machine.numbering.Fits →
          Machine.Embeds (machine.numbering.relocation sound.numbering.1) restored machine) := by
  obtain ⟨root, entry, rootFound, isRoot, entryKnown⟩ := (sound.chain goesOn).entry
  obtain ⟨function, functionFound⟩ := Option.isSome_iff_exists.mp entryKnown
  obtain ⟨valid, done, rooted⟩ := sound.numbering
  have naming := valid.naming
  have bounds :
      (machine.record signature function.name).bounds = machine.numbering.bounds := by
    simp [Snapshot.bounds, record, Numbering.bounds, Machine.numbering]
  have head :
      (machine.record signature function.name).frames.head?.map FrameRecord.node =
        some (.start entry) := by
    simp [record, FrameRecord.ofFrame, rootFound, isRoot]
  have named :
      (tree.function? entry).map (·.name) =
        some (machine.record signature function.name).entry := by
    rw [functionFound]
    rfl
  obtain ⟨heap, heapOk, heapEmbeds⟩ :
      ∃ inner,
        machine.numbering.bounds.heap tree (machine.record signature function.name) = .ok inner ∧
          (machine.numbering.Fits →
            Heap.Embeds (machine.numbering.relocation valid) inner machine.memory.world.heap) :=
    valid.restored_heap sound.memory.heap unopened done rfl rfl rfl
  obtain ⟨statics, staticsOk, staticsMoved⟩ := sound.restored_statics naming rooted
  obtain ⟨activations, activationsOk, activationsMoved⟩ :=
    sound.restored_activations naming rooted
  obtain ⟨frames, framesOk, framesMoved⟩ := sound.restored_frames naming rooted goesOn known
  obtain ⟨incoming, incomingOk, incomingMoved⟩ := restored_incoming naming rooted
  have count : activations.length = machine.memory.activations.size := by
    simpa [record] using Restored.length_of_mapM activationsOk
  let restored : Machine :=
    { memory := ⟨⟨heap, machine.host⟩, activations.toArray, statics⟩
      frames := frames.reverse
      incoming
      outcome := .running
      steps := machine.steps }
  refine ⟨machine.record signature function.name, restored, ?_, ?_, ?_⟩
  · simp [save, running, rootFound, isRoot, functionFound]
  · have same : (machine.record signature function.name).signature = signature := rfl
    have restores := restore_eq head named machine.host
    rw [same] at restores
    have staticsOk :
        machine.numbering.bounds.statics tree
          (machine.record signature function.name).statics = .ok statics := staticsOk
    have activationsOk :
        (machine.record signature function.name).activations.mapM
          (machine.numbering.bounds.activation tree) = .ok activations := activationsOk
    have framesOk :
        machine.numbering.bounds.frames tree machine.memory.activations.size none
          (machine.record signature function.name).frames = .ok frames := framesOk
    have incomingOk :
        Restored.optional machine.numbering.bounds.completion
          (machine.record signature function.name).incoming = .ok incoming := incomingOk
    rw [restores, bounds, heapOk, staticsOk, activationsOk]
    change
      (machine.numbering.bounds.frames tree activations.length none
        (machine.record signature function.name).frames >>= _) = _
    rw [count, framesOk, incomingOk]
    rfl
  · intro fits
    refine ⟨⟨⟨heapEmbeds fits, rfl⟩, (staticsMoved fits).symm, activations.toArray, ?_, ?_⟩, ?_,
      (incomingMoved fits).symm, running, rfl⟩
    · simp [Relocation.whole, restored]
    · refine Array.toList_inj.mp ?_
      simpa [Relocation.whole] using (activationsMoved fits).symm
    · rw [List.map_reverse, framesMoved fits, List.reverse_reverse]

end Machine

end BotScript
