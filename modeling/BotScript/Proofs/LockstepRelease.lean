import BotScript.Proofs.Lockstep
import BotScript.Proofs.Numbering
import BotScript.Proofs.Released

namespace BotScript

/-!
# Closed files in lockstep

On a sound heap the released parts are described without their numbers: a part
is unused when no root refers to it and only unused parts refer to it.  To
close unused files takes the open file from every unused instance and touches
nothing else, in whatever order the files are closed.

The parts of the outer heap that lie outside the inner one can keep each other
in use.  As long as those of them fade that refer to the inner heap, the same
instances are unused on both heaps, and both close the same files.
-/

/-! ## Unused parts -/

open Restored (Bounds)

/-- A part that no root refers to, and to which only unused parts refer. -/
inductive Heap.Unused (heap : Heap) (roots : List HeapRef) : HeapRef → Prop where
  | intro
      {ref : HeapRef} :
      ref ∉ roots →
      (∀ holder : HeapRef, holder.Within heap.bounds → ref ∈ Numbering.refsOf heap holder →
        Unused heap roots holder) →
      Unused heap roots ref

namespace Heap

variable {heap : Heap} {roots : List HeapRef} {ref : HeapRef}

/-- Every number of a part belongs to a part. -/
theorem exists_partIndex
    {index : Nat}
    (inside : index < heap.partCount) :
    ∃ ref : HeapRef, ref.Within heap.bounds ∧ heap.partIndex ref = index := by
  unfold partCount at inside
  by_cases isCell : index < heap.cells.size
  · exact ⟨.cell ⟨index⟩, isCell, rfl⟩
  · by_cases isArray : index < heap.cells.size + heap.arrays.size
    · refine ⟨.array ⟨index - heap.cells.size⟩, ?_, ?_⟩ <;>
        simp only [HeapRef.Within, bounds, partIndex] <;> omega
    · refine ⟨.object ⟨index - heap.cells.size - heap.arrays.size⟩, ?_, ?_⟩ <;>
        simp only [HeapRef.Within, bounds, partIndex] <;> omega

/-- The parts that a part refers to, by number and by name. -/
theorem partRefs_partIndex
    (within : ref.Within heap.bounds) :
    heap.partRefs (heap.partIndex ref) =
      (Numbering.refsOf heap ref).map heap.partIndex := by
  unfold partRefs
  cases ref with
  | cell id =>
      have inside : id.index < heap.cells.size := within
      simp [partIndex, Numbering.refsOf, inside]
  | array id =>
      have inside : id.index < heap.arrays.size := within
      simp [partIndex, Numbering.refsOf, inside, Function.comp_def]
  | object id =>
      have noCell : ¬ heap.cells.size + heap.arrays.size + id.index < heap.cells.size := by
        omega
      simp [partIndex, Numbering.refsOf, Function.comp_def, noCell]

/-- The released parts of a sound heap are the unused ones. -/
theorem released_iff_unused
    {tree : Tree}
    (sound : heap.Sound tree)
    (covered : heap.bounds.Cover roots)
    (within : ref.Within heap.bounds) :
    heap.Released roots (heap.partIndex ref) ↔ heap.Unused roots ref := by
  constructor
  · intro released
    generalize named : heap.partIndex ref = index at released
    induction released generalizing ref with
    | intro unrooted _ inductionHypothesis =>
        subst named
        refine .intro (fun member => unrooted (List.mem_map_of_mem member)) ?_
        intro holder holderWithin member
        refine inductionHypothesis _ holderWithin.partIndex_lt ?_ holderWithin rfl
        rw [partRefs_partIndex holderWithin]
        exact List.mem_map_of_mem member
  · intro unused
    induction unused with
    | @intro ref unrooted _ inductionHypothesis =>
        refine .intro ?_ ?_
        · intro member
          obtain ⟨root, rootMember, same⟩ := List.mem_map.mp member
          have equal := (covered root rootMember).partIndex_injective within same
          exact unrooted (equal ▸ rootMember)
        · intro index inside member
          obtain ⟨holder, holderWithin, rfl⟩ := exists_partIndex inside
          rw [partRefs_partIndex holderWithin] at member
          obtain ⟨other, otherMember, same⟩ := List.mem_map.mp member
          have equal :=
            (sound.refsOf holder other otherMember).partIndex_injective within same
          exact inductionHypothesis holder holderWithin (equal ▸ otherMember) holderWithin

end Heap

/-! ## Closed files -/

/-- An instance without its open file. -/
def Instance.closed (object : Instance) : Instance :=
  { object with openFile := none }

@[simp] theorem Instance.closed_closed (object : Instance) :
    object.closed.closed = object.closed := rfl

/-- An instance without an open file has none to give up. -/
theorem Instance.closed_eq_self
    {object : Instance}
    (idle : object.openFile = none) :
    object.closed = object := by
  simp [closed, ← idle]

open scoped Classical in
/-- Some instances give up their open files, and nothing else changes. -/
structure World.Closes (closing : Nat → Prop) (before after : World) : Prop where
  cells : after.heap.cells = before.heap.cells
  arrays : after.heap.arrays = before.heap.arrays
  kept : ∀ index, ¬ closing index →
    after.heap.objects[index]? = before.heap.objects[index]?
  closed : ∀ index, closing index →
    after.heap.objects[index]? = before.heap.objects[index]?.map Instance.closed
  host :
    after.host =
      { before.host with
        openFiles :=
          { before.host.openFiles with
            files := before.host.openFiles.files.filter fun entry =>
              ∀ index, closing index →
                (before.heap.object ⟨index⟩).openFile ≠ some entry.1 } }

namespace World

variable {world : World}

/-- The instance at a position after another one has given up its open file. -/
theorem object_closeFile
    (id : ObjectId)
    (index : Nat) :
    (world.closeFile id).heap.objects[index]? =
      if id.index = index then world.heap.objects[index]?.map Instance.closed
      else world.heap.objects[index]? := by
  unfold closeFile
  dsimp only
  split
  · next handle found =>
      simp only [Heap.setObject, Array.getElem?_setIfInBounds]
      split
      · next same =>
          subst same
          split
          · next inside =>
              simp [Heap.object, Array.getElem?_eq_getElem inside, Instance.closed]
          · next outside => simp [Array.getElem?_eq_none (Nat.le_of_not_lt outside)]
      · rfl
  · next found =>
      split
      · next same =>
          subst same
          cases entry : world.heap.objects[id.index]? with
          | none => rfl
          | some object =>
              have idle : object.openFile = none := by simpa [Heap.object, entry] using found
              simp [Instance.closed_eq_self idle]
      · rfl

/-- The host after an instance has given up its open file. -/
theorem host_closeFile
    (id : ObjectId) :
    (world.closeFile id).host =
      { world.host with
        openFiles :=
          { world.host.openFiles with
            files := world.host.openFiles.files.filter fun entry =>
              (world.heap.object id).openFile != some entry.1 } } := by
  unfold closeFile
  dsimp only
  cases found : (world.heap.object id).openFile with
  | none =>
      have all :
          (world.host.openFiles.files.filter fun entry =>
            (none : Option FileHandle) != some entry.1) = world.host.openFiles.files :=
        List.filter_eq_self.mpr fun _ _ => rfl
      rw [all]
  | some handle =>
      simp only [OpenFiles.erase]
      congr 2
      refine List.filter_congr fun entry _ => ?_
      simp [bne, eq_comm, beq_eq_decide]

/-- Several instances give up their open files one behind the other. -/
theorem closes_foldl
    (indices : List Nat) :
    World.Closes (· ∈ indices) world
      (indices.foldl (fun world index => world.closeFile ⟨index⟩) world) := by
  induction indices generalizing world with
  | nil => exact ⟨rfl, rfl, fun _ _ => rfl, fun _ member => absurd member (by simp), by simp⟩
  | cons first rest inductionHypothesis =>
      obtain ⟨cells, arrays, kept, closed, host⟩ := @inductionHypothesis (world.closeFile ⟨first⟩)
      have firstCells : (world.closeFile ⟨first⟩).heap.cells = world.heap.cells := by
        unfold closeFile
        dsimp only
        split <;> rfl
      have firstArrays : (world.closeFile ⟨first⟩).heap.arrays = world.heap.arrays := by
        unfold closeFile
        dsimp only
        split <;> rfl
      refine ⟨cells.trans firstCells, arrays.trans firstArrays, ?_, ?_, ?_⟩
      · intro index other
        simp only [List.mem_cons, not_or] at other
        rw [List.foldl_cons, kept index other.2, object_closeFile,
          if_neg fun same => other.1 same.symm]
      · intro index member
        rw [List.foldl_cons]
        by_cases later : index ∈ rest
        · rw [closed index later, object_closeFile]
          split
          · simp [Option.map_map, Function.comp_def]
          · rfl
        · have same : first = index := by
            rcases List.mem_cons.mp member with same | member
            · exact same.symm
            · exact absurd member later
          rw [kept index later, object_closeFile, if_pos same]
      · rw [List.foldl_cons, host, host_closeFile]
        simp only [List.filter_filter]
        congr 2
        refine List.filter_congr fun entry _ => ?_
        have others (index : Nat) (different : index ≠ first) :
            ((world.closeFile ⟨first⟩).heap.object ⟨index⟩).openFile =
              (world.heap.object ⟨index⟩).openFile := by
          simp only [Heap.object, object_closeFile, if_neg different.symm]
        rw [Bool.eq_iff_iff]
        simp only [Bool.and_eq_true, decide_eq_true_eq, bne_iff_ne, List.mem_cons,
          forall_eq_or_imp]
        constructor
        · rintro ⟨later, own⟩
          refine ⟨own, fun index member => ?_⟩
          by_cases same : index = first
          · exact same ▸ own
          · exact others index same ▸ later index member
        · rintro ⟨own, later⟩
          refine ⟨fun index member => ?_, own⟩
          by_cases same : index = first
          · subst same
            simp only [Heap.object, object_closeFile, ↓reduceIte]
            cases world.heap.objects[index]? <;> simp [Instance.closed]
            exact Option.some_ne_none _ ∘ Eq.symm
          · rw [others index same]
            exact later index member

/-- No instance comes or goes. -/
theorem Closes.objects_size
    {closing : Nat → Prop}
    {after : World}
    (closes : World.Closes closing world after) :
    after.heap.objects.size = world.heap.objects.size := by
  have inside (index : Nat) :
      index < after.heap.objects.size ↔ index < world.heap.objects.size := by
    rw [← Nat.not_le, ← Nat.not_le, ← Array.getElem?_eq_none_iff, ← Array.getElem?_eq_none_iff]
    by_cases closing' : closing index
    · rw [closes.closed index closing', Option.map_eq_none_iff]
    · rw [closes.kept index closing']
  have first := inside after.heap.objects.size
  have second := inside world.heap.objects.size
  omega

/-- Only instances that have an open file give it up. -/
theorem Closes.congr
    {closing others : Nat → Prop}
    {after : World}
    (closes : World.Closes closing world after)
    (same : ∀ index,
      (world.heap.object ⟨index⟩).openFile.isSome → (closing index ↔ others index)) :
    World.Closes others world after := by
  have idle (index : Nat) (idle : ¬ (world.heap.object ⟨index⟩).openFile.isSome) :
      world.heap.objects[index]?.map Instance.closed = world.heap.objects[index]? := by
    cases entry : world.heap.objects[index]? with
    | none => rfl
    | some object =>
        simp [Instance.closed_eq_self (by simpa [Heap.object, entry] using idle)]
  refine ⟨closes.cells, closes.arrays, ?_, ?_, ?_⟩
  · intro index other
    by_cases open' : (world.heap.object ⟨index⟩).openFile.isSome
    · exact closes.kept index (mt (same index open').mp other)
    · by_cases closing' : closing index
      · rw [closes.closed index closing', idle index open']
      · exact closes.kept index closing'
  · intro index other
    by_cases open' : (world.heap.object ⟨index⟩).openFile.isSome
    · exact closes.closed index ((same index open').mpr other)
    · by_cases closing' : closing index
      · exact closes.closed index closing'
      · rw [closes.kept index closing', idle index open']
  · rw [closes.host]
    dsimp only
    congr 2
    refine List.filter_congr fun entry _ => ?_
    rw [Bool.eq_iff_iff]
    simp only [decide_eq_true_eq]
    constructor <;> intro all index other own
    · exact all index ((same index (by simp [own])).mpr other) own
    · exact all index ((same index (by simp [own])).mp other) own

/-- To close unused files takes the open files from the unused instances. -/
theorem closes_closeUnused
    {tree : Tree}
    (sound : world.heap.Sound tree)
    {roots : List HeapRef}
    (covered : world.heap.bounds.Cover roots) :
    World.Closes (fun index => world.heap.Unused roots (.object ⟨index⟩)) world
      (world.closeUnused roots) := by
  have inside (index : Nat) (owner : (world.heap.object ⟨index⟩).openFile.isSome) :
      index < world.heap.objects.size := by
    by_contra outside
    simp [Heap.object, Array.getElem?_eq_none (Nat.le_of_not_lt outside),
      show (default : Instance).openFile = none from rfl] at owner
  unfold closeUnused
  dsimp only
  split
  · next none =>
      have nobody : ∀ index, ¬ (world.heap.object ⟨index⟩).openFile.isSome := by
        intro index owner
        have member :
            index ∈ (List.range world.heap.objects.size).filter fun index =>
              (world.heap.object ⟨index⟩).openFile.isSome :=
          List.mem_filter.mpr ⟨List.mem_range.mpr (inside index owner), owner⟩
        rw [List.isEmpty_iff.mp none] at member
        simp at member
      have nothing : World.Closes (· ∈ ([] : List Nat)) world world := closes_foldl []
      exact nothing.congr fun index owner => absurd owner (nobody index)
  · refine (closes_foldl _).congr fun index owner => ?_
    have within : (HeapRef.object ⟨index⟩).Within world.heap.bounds := inside index owner
    simp only [List.mem_filter, List.mem_range, owner, beq_iff_eq, and_true, inside index owner,
      true_and]
    rw [Heap.heldCounts_eq_zero within.partIndex_lt,
      Heap.released_iff_unused sound covered within]

end World

/-! ## Parts outside of the inner heap -/

namespace Relocation

variable {shift : Relocation}

/-- A part of the heap on the outer heap. -/
def ref (shift : Relocation) : HeapRef → HeapRef
  | .cell id => .cell (shift.cell id)
  | .array id => .array (shift.array id)
  | .object id => .object (shift.object id)

/-- A part of the outer heap that lies outside the inner one. -/
def Stray (shift : Relocation) (ref : HeapRef) : Prop :=
  ∀ origin, shift.ref origin ≠ ref

/-- A stray part to which only stray parts refer that fade. -/
inductive Fades (shift : Relocation) : HeapRef → Prop where
  | intro
      {ref : HeapRef} :
      (∀ holder : HeapRef, shift.Stray holder → holder.Within shift.idle.bounds →
        ref ∈ Numbering.refsOf shift.idle holder → Fades shift holder) →
      Fades shift ref

/-- Stray parts that refer to others fade, and stray instances have no open files. -/
structure Fading (shift : Relocation) : Prop where
  parts : ∀ ref : HeapRef, shift.Stray ref → ref.Within shift.idle.bounds →
    ∀ origin, shift.ref origin ∈ Numbering.refsOf shift.idle ref → shift.Fades ref
  files : ∀ id : ObjectId, shift.Stray (.object id) →
    (shift.idle.object id).openFile = none

/-- Different parts stay different. -/
theorem ref_injective
    (shift : Relocation) :
    Function.Injective shift.ref := by
  intro first second same
  cases first <;> cases second <;>
    simp_all [ref, shift.cell_injective.eq_iff, shift.array_injective.eq_iff,
      shift.object_injective.eq_iff]

/-! ## What moved data refers to -/

@[simp] theorem refs_value
    (value : Value) :
    (shift.value value).refs = value.refs.map shift.ref := by
  cases value <;> rfl

@[simp] theorem refs_completion
    (completion : Completion) :
    (shift.completion completion).refs = completion.refs.map shift.ref := by
  cases completion <;> simp [Completion.refs, ref]

@[simp] theorem refs_frame
    (frame : Frame) :
    (shift.frame frame).refs = frame.refs.map shift.ref := by
  simp only [Frame.refs, frame_values, frame_place, frame_pending, List.map_append,
    List.map_flatMap, List.flatMap_map, refs_value]
  cases frame.place <;> cases frame.pending <;> simp [ref]

@[simp] theorem refs_activation
    (activation : Activation) :
    (shift.activation activation).refs = activation.refs.map shift.ref := by
  simp only [Activation.refs, Relocation.activation, List.map_append]
  cases activation.this <;> simp [ref, Function.comp_def]

end Relocation

namespace Heap.Embeds

variable {shift : Relocation} {inner outer : Heap} {roots : List HeapRef} {ref : HeapRef}
  (embeds : Heap.Embeds shift inner outer)

include embeds

/-- What a moved part refers to. -/
theorem refsOf
    (ref : HeapRef) :
    Numbering.refsOf outer (shift.ref ref) =
      (Numbering.refsOf inner ref).map shift.ref := by
  cases ref with
  | cell id => simp [Numbering.refsOf, Relocation.ref, embeds.cell]
  | array id =>
      simp [Numbering.refsOf, Relocation.ref, embeds.array, Function.comp_def]
  | object id =>
      simp [Numbering.refsOf, Relocation.ref, embeds.object, Function.comp_def]

/-- A part exists on both heaps or on none. -/
theorem within_iff
    (ref : HeapRef) :
    (shift.ref ref).Within outer.bounds ↔ ref.Within inner.bounds := by
  cases ref with
  | cell id => exact embeds.cells.lt_iff id.index
  | array id => exact embeds.arrays.lt_iff id.index
  | object id => exact embeds.objects.lt_iff id.index

/-- A stray cell, array or instance is what the relocation says it is. -/
theorem stray
    (stray : shift.Stray ref) :
    Numbering.refsOf outer ref = Numbering.refsOf shift.idle ref ∧
      (ref.Within outer.bounds ↔ ref.Within shift.idle.bounds) := by
  have inside {α : Type} {first second : Array α} {index : Nat}
      (same : first[index]? = second[index]?) :
      index < first.size ↔ index < second.size := by
    rw [← Nat.not_le, ← Nat.not_le, ← Array.getElem?_eq_none_iff,
      ← Array.getElem?_eq_none_iff, same]
  cases ref with
  | cell id =>
      have same := embeds.cells.idle id.index fun origin moved =>
        stray (.cell ⟨origin⟩) (congrArg (fun index => HeapRef.cell ⟨index⟩) moved)
      exact ⟨by simp only [Numbering.refsOf, Heap.cell, same], inside same⟩
  | array id =>
      have same := embeds.arrays.idle id.index fun origin moved =>
        stray (.array ⟨origin⟩) (congrArg (fun index => HeapRef.array ⟨index⟩) moved)
      exact ⟨by simp only [Numbering.refsOf, Heap.array, same], inside same⟩
  | object id =>
      have same := embeds.objects.idle id.index fun origin moved =>
        stray (.object ⟨origin⟩) (congrArg (fun index => HeapRef.object ⟨index⟩) moved)
      exact ⟨by simp only [Numbering.refsOf, Heap.object, same], inside same⟩

/-- A part that fades is unused. -/
theorem unused_of_fades
    (fades : shift.Fades ref)
    (stray : shift.Stray ref) :
    outer.Unused (roots.map shift.ref) ref := by
  induction fades with
  | @intro ref _ inductionHypothesis =>
      refine .intro ?_ fun holder within member => ?_
      · intro member
        obtain ⟨root, -, moved⟩ := List.mem_map.mp member
        exact stray root moved
      · have holderStray : shift.Stray holder := by
          rintro origin rfl
          rw [embeds.refsOf] at member
          obtain ⟨part, -, moved⟩ := List.mem_map.mp member
          exact stray part moved
        obtain ⟨same, bounds⟩ := embeds.stray holderStray
        exact inductionHypothesis holder holderStray (bounds.mp within) (same ▸ member)
          holderStray

/-- A part is unused on both heaps or on none. -/
theorem unused_iff
    (fading : shift.Fading)
    (ref : HeapRef) :
    outer.Unused (roots.map shift.ref) (shift.ref ref) ↔ inner.Unused roots ref := by
  constructor
  · intro unused
    generalize moved : shift.ref ref = target at unused
    induction unused generalizing ref with
    | intro unrooted _ inductionHypothesis =>
        subst moved
        refine .intro (fun member => unrooted (List.mem_map_of_mem member)) ?_
        intro holder within member
        refine inductionHypothesis _ ((embeds.within_iff holder).mpr within) ?_ holder rfl
        rw [embeds.refsOf]
        exact List.mem_map_of_mem member
  · intro unused
    induction unused with
    | @intro ref unrooted _ inductionHypothesis =>
        refine .intro ?_ fun holder within member => ?_
        · intro member
          obtain ⟨root, rootMember, moved⟩ := List.mem_map.mp member
          exact unrooted (shift.ref_injective moved ▸ rootMember)
        · by_cases stray : shift.Stray holder
          · obtain ⟨same, bounds⟩ := embeds.stray stray
            have fades := fading.parts holder stray (bounds.mp within) ref (same ▸ member)
            exact embeds.unused_of_fades fades stray
          · simp only [Relocation.Stray, ne_eq, not_forall, not_not] at stray
            obtain ⟨origin, rfl⟩ := stray
            rw [embeds.refsOf] at member
            obtain ⟨part, partMember, moved⟩ := List.mem_map.mp member
            exact inductionHypothesis origin ((embeds.within_iff origin).mp within)
              (shift.ref_injective moved ▸ partMember)

end Heap.Embeds

namespace World.Embeds

variable {shift : Relocation} {inner outer : World}

/-- Worlds of which one lies in the other close the same files. -/
theorem closes
    (embeds : World.Embeds shift inner outer)
    (fading : shift.Fading)
    {closing others : Nat → Prop}
    {innerAfter outerAfter : World}
    (innerCloses : World.Closes closing inner innerAfter)
    (outerCloses : World.Closes others outer outerAfter)
    (same : ∀ index, others (shift.objectAt index) ↔ closing index) :
    World.Embeds shift innerAfter outerAfter := by
  have moved (index : Nat) :
      outer.heap.objects[shift.objectAt index]? =
        inner.heap.objects[index]?.map shift.fields :=
    embeds.heap.objects.entry index
  have unmoved (index : Nat) (stray : ∀ origin, shift.objectAt origin ≠ index) :
      (outer.heap.object ⟨index⟩).openFile = none := by
    have idle := embeds.heap.objects.idle index stray
    have none := fading.files ⟨index⟩ fun origin => by
      cases origin with
      | object id =>
          intro same
          exact stray id.index (congrArg ObjectId.index (HeapRef.object.inj same))
      | cell id => simp [Relocation.ref]
      | array id => simp [Relocation.ref]
    simpa only [Heap.object, idle] using none
  refine ⟨⟨?_, ?_, ?_⟩, ?_⟩
  · rw [innerCloses.cells, outerCloses.cells]
    exact embeds.heap.cells
  · rw [innerCloses.arrays, outerCloses.arrays]
    exact embeds.heap.arrays
  · refine ⟨fun index => ?_, ?_, fun index stray => ?_⟩
    · by_cases closed : closing index
      · rw [outerCloses.closed _ ((same index).mpr closed), innerCloses.closed _ closed, moved]
        cases inner.heap.objects[index]? <;> rfl
      · rw [outerCloses.kept _ (mt (same index).mp closed), innerCloses.kept _ closed, moved]
    · rw [innerCloses.objects_size, outerCloses.objects_size]
      exact embeds.heap.objects.fresh
    · have idle := embeds.heap.objects.idle index stray
      by_cases closed : others index
      · rw [outerCloses.closed _ closed, ← idle]
        cases entry : outer.heap.objects[index]? with
        | none => rfl
        | some object =>
            have none := unmoved index stray
            simp only [Heap.object, entry, Option.getD_some] at none
            simp [Instance.closed_eq_self none]
      · rw [outerCloses.kept _ closed, idle]
  · rw [innerCloses.host, outerCloses.host, embeds.host]
    dsimp only
    congr 2
    refine List.filter_congr fun entry _ => ?_
    rw [Bool.eq_iff_iff]
    simp only [decide_eq_true_eq]
    have file (index : Nat) :
        (outer.heap.object ⟨shift.objectAt index⟩).openFile =
          (inner.heap.object ⟨index⟩).openFile := by
      have object := embeds.heap.object ⟨index⟩
      exact (congrArg Instance.openFile object).trans (Relocation.fields_openFile _)
    constructor
    · intro all index closed
      rw [← file index]
      exact all _ ((same index).mpr closed)
    · intro all index closed
      by_cases stray : ∀ origin, shift.objectAt origin ≠ index
      · simp [unmoved index stray]
      · simp only [ne_eq, not_forall, not_not] at stray
        obtain ⟨origin, rfl⟩ := stray
        rw [file origin]
        exact all origin ((same origin).mp closed)

/-- Worlds of which one lies in the other close the same unused files. -/
theorem closeUnused
    (embeds : World.Embeds shift inner outer)
    (fading : shift.Fading)
    {tree : Tree}
    (innerSound : inner.heap.Sound tree)
    (outerSound : outer.heap.Sound tree)
    {roots : List HeapRef}
    (innerCovered : inner.heap.bounds.Cover roots)
    (outerCovered : outer.heap.bounds.Cover (roots.map shift.ref)) :
    World.Embeds shift (inner.closeUnused roots) (outer.closeUnused (roots.map shift.ref)) :=
  embeds.closes fading (closes_closeUnused innerSound innerCovered)
    (closes_closeUnused outerSound outerCovered)
    fun index => embeds.heap.unused_iff fading (.object ⟨index⟩)

end World.Embeds

end BotScript
