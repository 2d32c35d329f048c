import BotScript.Proofs.Resumption

namespace BotScript

open Restored (Bounds)

/-!
# Saving a restored machine

The numbers of a snapshot follow the shape of what a machine can reach, not the
positions on the heap.  So a machine is saved as any machine in which it lies,
and a restored machine as the one that it comes from.
-/

/-! ## Numbers on relocated heaps -/

namespace Numbering

/-- Two numberings give the same numbers to the parts of an inner and of an outer heap. -/
structure Embeds
    (shift : Relocation) (inner outer : Heap) (first second : Numbering) : Prop where
  innerSize : first.numbers.size = inner.partCount
  outerSize : second.numbers.size = outer.partCount
  cells : second.cells = first.cells.map shift.cell
  arrays : second.arrays = first.arrays.map shift.array
  objects : second.objects = first.objects.map shift.object
  pending : second.pending = first.pending.map shift.ref
  number : ∀ ref : HeapRef, ref.Within inner.bounds →
    second.number? outer (shift.ref ref) = first.number? inner ref

/-- Seeing a part does not change how many parts can be numbered. -/
theorem size_see
    (heap : Heap)
    (numbering : Numbering)
    (ref : HeapRef) :
    (see heap numbering ref).numbers.size = numbering.numbers.size := by
  unfold see
  cases ref <;> split <;> simp [enlist]

/-- More rounds change nothing once nothing is pending. -/
theorem drain_add
    {heap : Heap}
    {bound : Nat}
    {numbering : Numbering}
    (done : (drain heap bound numbering).pending = [])
    (more : Nat) :
    drain heap (bound + more) numbering = drain heap bound numbering := by
  induction bound generalizing numbering with
  | zero =>
      cases more with
      | zero => rfl
      | succ more =>
          have idle : numbering.pending = [] := done
          simp only [drain, idle]
  | succ bound inductionHypothesis =>
      rw [Nat.succ_add]
      unfold drain at done ⊢
      split
      · rfl
      · next ref rest pending =>
          rw [pending] at done
          exact inductionHypothesis done

variable {shift : Relocation} {inner outer : Heap} {first second : Numbering}

namespace Embeds

variable (embeds : Embeds shift inner outer first second)

include embeds

/-- The next position for a part is the same on both heaps. -/
theorem count
    (ref : HeapRef) :
    second.count (shift.ref ref) = first.count ref := by
  cases ref <;> simp [Relocation.ref, Numbering.count, embeds.cells, embeds.arrays, embeds.objects]

section

variable (heaps : Heap.Embeds shift inner outer)

include heaps

/-- A part is seen on both heaps. -/
theorem see
    {ref : HeapRef}
    (within : ref.Within inner.bounds) :
    Embeds shift inner outer (see inner first ref) (see outer second (shift.ref ref)) := by
  have same := embeds.number ref within
  cases found : first.number? inner ref with
  | some number =>
      rw [found] at same
      rw [see_numbered (by rw [found]; rfl), see_numbered (by rw [same]; rfl)]
      exact embeds
  | none =>
      rw [found] at same
      have innerUnseen : ((first.numbers[inner.partIndex ref]?).join).isSome = false := by
        rw [show (first.numbers[inner.partIndex ref]?).join = none from found]
        rfl
      have outerUnseen :
          ((second.numbers[outer.partIndex (shift.ref ref)]?).join).isSome = false := by
        rw [show (second.numbers[outer.partIndex (shift.ref ref)]?).join = none from same]
        rfl
      refine ⟨(size_see ..).trans embeds.innerSize, (size_see ..).trans embeds.outerSize,
        ?_, ?_, ?_, ?_, fun other otherWithin => ?_⟩
      · cases ref <;>
          simp_all [Numbering.see, Relocation.ref, enlist, embeds.cells]
      · cases ref <;>
          simp_all [Numbering.see, Relocation.ref, enlist, embeds.arrays]
      · cases ref <;>
          simp_all [Numbering.see, Relocation.ref, enlist, embeds.objects]
      · rw [pending_see, pending_see, if_pos found, if_pos same, embeds.pending, List.map_cons]
      · rw [number?_see found embeds.innerSize within otherWithin,
          number?_see same embeds.outerSize ((heaps.within_iff ref).mpr within)
            ((heaps.within_iff other).mpr otherWithin),
          embeds.count, embeds.number other otherWithin]
        simp only [shift.ref_injective.eq_iff]

/-- Several parts are seen on both heaps. -/
theorem seeAll
    {refs : List HeapRef}
    (covered : inner.bounds.Cover refs) :
    Embeds shift inner outer (refs.foldl (Numbering.see inner) first)
      ((refs.map shift.ref).foldl (Numbering.see outer) second) := by
  induction refs generalizing first second with
  | nil => exact embeds
  | cons ref rest inductionHypothesis =>
      exact inductionHypothesis (embeds.see heaps (covered ref (List.mem_cons_self ..)))
        fun other member => covered other (List.mem_cons_of_mem _ member)

/-- In each round the same part is worked on. -/
theorem drain
    {tree : Tree}
    (sound : inner.Sound tree)
    (bound : Nat) :
    Embeds shift inner outer (drain inner bound first) (drain outer bound second) := by
  induction bound generalizing first second with
  | zero => exact embeds
  | succ bound inductionHypothesis =>
      cases pending : first.pending with
      | nil => simpa only [Numbering.drain, embeds.pending, pending, List.map_nil] using embeds
      | cons ref rest =>
          have started :
              Embeds shift inner outer { first with pending := rest }
                { second with pending := rest.map shift.ref } :=
            ⟨embeds.innerSize, embeds.outerSize, embeds.cells, embeds.arrays, embeds.objects, rfl,
              embeds.number⟩
          simpa only [Numbering.drain, embeds.pending, pending, List.map_cons, heaps.refsOf] using
            inductionHypothesis (started.seeAll heaps (sound.refsOf ref))

omit embeds in
/-- No part has been seen on either heap. -/
theorem empty :
    Embeds shift inner outer { numbers := Array.replicate inner.partCount none }
      { numbers := Array.replicate outer.partCount none } where
  innerSize := by simp
  outerSize := by simp
  cells := by simp
  arrays := by simp
  objects := by simp
  pending := rfl
  number ref within := by
    have outside := ((heaps.within_iff ref).mpr within).partIndex_lt
    simp [number?, within.partIndex_lt, outside]

omit embeds in
/-- What the same roots can reach gets the same numbers. -/
theorem ofRoots
    {tree : Tree}
    {roots : List HeapRef}
    (sound : outer.Sound tree)
    (covered : inner.bounds.Cover roots) :
    Embeds shift inner outer (ofRoots inner roots) (ofRoots outer (roots.map shift.ref)) := by
  have innerSound := heaps.sound sound
  have innerDone := (valid_ofRoots innerSound covered).2.1
  have outerDone := (valid_ofRoots sound (heaps.cover_iff.mpr covered)).2.1
  have drained :=
    ((empty heaps).seeAll heaps covered).drain heaps innerSound (inner.partCount + outer.partCount)
  rw [drain_add innerDone] at drained
  rw [Nat.add_comm, drain_add outerDone] at drained
  exact drained

end

/-- The number of a part of the inner heap. -/
theorem numberOf
    {ref : HeapRef}
    (within : ref.Within inner.bounds) :
    second.numberOf outer (shift.ref ref) = first.numberOf inner ref :=
  congrArg (Option.getD · 0) (embeds.number ref within)

end Embeds

end Numbering

/-! ## Records of relocated data -/

section Records

variable {shift : Relocation} {number other : HeapRef → UInt32}

/-- A value whose parts have the same numbers. -/
theorem SavedValue.ofValue_moved
    (value : Value)
    (same : ∀ ref ∈ value.refs, other (shift.ref ref) = number ref) :
    ofValue other (shift.value value) = ofValue number value := by
  cases value with
  | array id => exact congrArg SavedValue.array (same (.array id) (List.mem_singleton_self _))
  | object id => exact congrArg SavedValue.object (same (.object id) (List.mem_singleton_self _))
  | _ => rfl

/-- A completion whose parts have the same numbers. -/
theorem SavedCompletion.ofCompletion_moved
    (completion : Completion)
    (same : ∀ ref ∈ completion.refs, other (shift.ref ref) = number ref) :
    ofCompletion other (shift.completion completion) = ofCompletion number completion := by
  cases completion with
  | value value => exact congrArg SavedCompletion.value (SavedValue.ofValue_moved value same)
  | returned value => exact congrArg SavedCompletion.returned (SavedValue.ofValue_moved value same)
  | place cell => exact congrArg SavedCompletion.place (same (.cell cell) (List.mem_singleton_self _))
  | _ => rfl

/-- A frame whose parts have the same numbers. -/
theorem FrameRecord.ofFrame_moved
    (frame : Frame)
    (same : ∀ ref ∈ frame.refs, other (shift.ref ref) = number ref) :
    ofFrame other (shift.frame frame) = ofFrame number frame := by
  simp only [Frame.refs, List.mem_append, List.mem_flatMap, List.mem_map, Option.mem_toList] at same
  have values :
      (frame.values.map shift.value).map (SavedValue.ofValue other) =
        frame.values.map (.ofValue number) := by
    rw [List.map_map]
    exact List.map_congr_left fun value member =>
      SavedValue.ofValue_moved value fun ref own => same ref (.inl (.inl ⟨value, member, own⟩))
  have place :
      (frame.place.map shift.cell).map (fun cell => other (.cell cell)) =
        frame.place.map fun cell => number (.cell cell) := by
    rw [Option.map_map]
    exact Option.map_congr fun cell held =>
      same (.cell cell) (.inl (.inr ⟨cell, held, rfl⟩))
  have pending :
      (frame.pending.map shift.completion).map (SavedCompletion.ofCompletion other) =
        frame.pending.map (.ofCompletion number) := by
    rw [Option.map_map]
    exact Option.map_congr fun completion held =>
      SavedCompletion.ofCompletion_moved completion fun ref own =>
        same ref (.inr ⟨completion, held, own⟩)
  simp only [FrameRecord.ofFrame, Relocation.frame, values, place, pending]

end Records

namespace Machine

variable {tree : Tree} {shift : Relocation} {inner outer machine : Machine}

namespace Embeds

variable (embeds : Machine.Embeds shift inner outer)

include embeds

/-- The heap of the inner machine lies in that of the outer one. -/
theorem heap :
    Heap.Embeds shift inner.memory.world.heap outer.memory.world.heap :=
  embeds.memory.world.heap

/-- Both machines number the same parts in the same order. -/
theorem numbering
    (sound : outer.Sound tree) :
    Numbering.Embeds shift inner.memory.world.heap outer.memory.world.heap inner.numbering
      outer.numbering := by
  have numberings :=
    Numbering.Embeds.ofRoots embeds.heap sound.memory.heap (embeds.sound sound).refs
  rwa [← embeds.refs] at numberings

/-- Parts have the same numbers for both machines. -/
theorem numberOf
    (sound : outer.Sound tree)
    {refs : List HeapRef}
    (covered : inner.memory.bounds.Cover refs) :
    ∀ ref ∈ refs,
      outer.numbering.numberOf outer.memory.world.heap (shift.ref ref) =
        inner.numbering.numberOf inner.memory.world.heap ref :=
  fun ref member => (embeds.numbering sound).numberOf (covered ref member)

/-- Cells have the same numbers for both machines. -/
theorem numbersOf
    (sound : outer.Sound tree)
    {ids : Array CellId}
    (inside : ∀ id ∈ ids, id.index < inner.memory.bounds.cells) :
    ((ids.map shift.cell).toList.map fun id =>
        outer.numbering.numberOf outer.memory.world.heap (.cell id)) =
      ids.toList.map fun id => inner.numbering.numberOf inner.memory.world.heap (.cell id) := by
  rw [Array.toList_map, List.map_map]
  refine List.map_congr_left fun id member => ?_
  have within : (HeapRef.cell id).Within inner.memory.bounds := inside id (by simpa using member)
  exact (embeds.numbering sound).numberOf within

/-- Both machines have the same cells. -/
theorem record_cells
    (sound : outer.Sound tree)
    (signature : UInt32)
    (entry : String) :
    (outer.record signature entry).cells = (inner.record signature entry).cells := by
  change outer.numbering.cells.toList.map _ = inner.numbering.cells.toList.map _
  rw [(embeds.numbering sound).cells, Array.toList_map, List.map_map]
  refine List.map_congr_left fun id _ => ?_
  simp only [Function.comp_apply, embeds.heap.cell, Relocation.content_ty, Relocation.content_state,
    Relocation.content_value]
  have covered := (embeds.sound sound).memory.heap.cell id
  exact congrArg (CellRecord.mk _ _) (SavedValue.ofValue_moved _ (embeds.numberOf sound covered))

/-- Both machines have the same arrays. -/
theorem record_arrays
    (sound : outer.Sound tree)
    (signature : UInt32)
    (entry : String) :
    (outer.record signature entry).arrays = (inner.record signature entry).arrays := by
  change outer.numbering.arrays.toList.map _ = inner.numbering.arrays.toList.map _
  rw [(embeds.numbering sound).arrays, Array.toList_map, List.map_map]
  refine List.map_congr_left fun id _ => ?_
  simp only [Function.comp_apply, embeds.heap.array, Relocation.elements_element,
    Relocation.elements_limits, Relocation.elements_items]
  have items := ((embeds.sound sound).memory.heap.array id).items
  exact congrArg (ArrayRecord.mk _ _) (embeds.numbersOf sound items)

/-- Both machines have the same instances. -/
theorem record_objects
    (sound : outer.Sound tree)
    (signature : UInt32)
    (entry : String) :
    (outer.record signature entry).objects = (inner.record signature entry).objects := by
  change outer.numbering.objects.toList.map _ = inner.numbering.objects.toList.map _
  rw [(embeds.numbering sound).objects, Array.toList_map, List.map_map]
  refine List.map_congr_left fun id _ => ?_
  simp only [Function.comp_apply, embeds.heap.object, Relocation.fields_layout, Relocation.fields_fields]
  have fields := (embeds.sound sound).memory.heap.fields id
  exact congrArg (ObjectRecord.mk _) (embeds.numbersOf sound fields)

/-- Both machines have the same static fields. -/
theorem record_statics
    (sound : outer.Sound tree)
    (signature : UInt32)
    (entry : String) :
    (outer.record signature entry).statics = (inner.record signature entry).statics := by
  change outer.memory.statics.toList.map _ = inner.memory.statics.toList.map _
  rw [embeds.memory.statics, Array.toList_map, List.map_map]
  refine List.map_congr_left fun fields member => ?_
  exact embeds.numbersOf sound
    ((embeds.sound sound).memory.statics fields (by simpa using member))

/-- Both machines have the same activations. -/
theorem record_activations
    (sound : outer.Sound tree)
    (signature : UInt32)
    (entry : String) :
    (outer.record signature entry).activations = (inner.record signature entry).activations := by
  obtain ⟨visible, own, outerOwn⟩ := embeds.memory.activations
  simp only [Relocation.whole, Array.empty_append] at own outerOwn
  change outer.memory.activations.toList.map _ = inner.memory.activations.toList.map _
  rw [outerOwn, ← own, Array.toList_map, List.map_map]
  refine List.map_congr_left fun activation member => ?_
  have covered :=
    ((embeds.sound sound).memory.activations activation (by simpa using member)).refs
  simp only [Activation.refs, Bounds.cover_append] at covered
  have this :
      ((activation.this.map shift.object).map fun id =>
          outer.numbering.numberOf outer.memory.world.heap (.object id)) =
        activation.this.map fun id =>
          inner.numbering.numberOf inner.memory.world.heap (.object id) := by
    rw [Option.map_map]
    refine Option.map_congr fun id held => ?_
    exact embeds.numberOf sound covered.1 (.object id) (by simp [held])
  have inside : ∀ id ∈ activation.locals, id.index < inner.memory.bounds.cells := fun id own =>
    covered.2 (.cell id) (List.mem_map.mpr ⟨id, by simpa using own, rfl⟩)
  exact congrArg₂ (ActivationRecord.mk activation.function) this (embeds.numbersOf sound inside)

/-- Both machines have the same frames. -/
theorem record_frames
    (sound : outer.Sound tree)
    (signature : UInt32)
    (entry : String) :
    (outer.record signature entry).frames = (inner.record signature entry).frames := by
  change outer.frames.reverse.map _ = inner.frames.reverse.map _
  rw [embeds.frames, ← List.map_reverse, List.map_map]
  refine List.map_congr_left fun frame member => ?_
  have inside := List.mem_reverse.mp member
  have covered := ((embeds.sound sound).chain (List.ne_nil_of_mem inside)).refs frame inside
  exact FrameRecord.ofFrame_moved frame (embeds.numberOf sound covered)

/-- Both machines have the same completion in transit. -/
theorem record_incoming
    (sound : outer.Sound tree)
    (signature : UInt32)
    (entry : String) :
    (outer.record signature entry).incoming = (inner.record signature entry).incoming := by
  have covered := (embeds.sound sound).incoming
  change outer.incoming.map _ = inner.incoming.map _
  rw [embeds.incoming, Option.map_map]
  refine Option.map_congr fun completion held => ?_
  rw [held] at covered
  exact SavedCompletion.ofCompletion_moved completion
    (embeds.numberOf sound (by simpa using covered))

/-- A machine is saved as one in which it lies. -/
theorem record
    (sound : outer.Sound tree)
    (signature : UInt32)
    (entry : String) :
    inner.record signature entry = outer.record signature entry := by
  simp only [Machine.record, Snapshot.mk.injEq]
  exact ⟨trivial, trivial, (embeds.record_cells sound signature entry).symm,
    (embeds.record_arrays sound signature entry).symm,
    (embeds.record_objects sound signature entry).symm,
    (embeds.record_statics sound signature entry).symm,
    (embeds.record_activations sound signature entry).symm,
    (embeds.record_frames sound signature entry).symm,
    (embeds.record_incoming sound signature entry).symm, embeds.steps.symm⟩

/-- Saving has the same result for both machines. -/
theorem save
    (sound : outer.Sound tree)
    (signature : UInt32) :
    inner.save tree signature = outer.save tree signature := by
  have root : outer.frames.getLast?.map Frame.node = inner.frames.getLast?.map Frame.node := by
    rw [embeds.frames, List.getLast?_map, Option.map_map]
    rfl
  simp only [Machine.save, root, embeds.outcome, embeds.record sound]
  cases inner.outcome <;> rfl

end Embeds

end Machine

/-! ## Open files are not saved -/

/-- A heap whose instances have no open files. -/
def Heap.shut (heap : Heap) : Heap :=
  { heap with objects := heap.objects.map fun object => { object with openFile := none } }

/-- An instance of a heap without open files. -/
theorem Heap.shut_object
    (heap : Heap)
    (id : ObjectId) :
    heap.shut.object id = { heap.object id with openFile := none } := by
  unfold Heap.object Heap.shut
  rw [Array.getElem?_map]
  cases heap.objects[id.index]? <;> rfl

/-- A heap is sound without its open files. -/
theorem Heap.Sound.shut
    {tree : Tree}
    {heap : Heap}
    (sound : heap.Sound tree) :
    heap.shut.Sound tree ∧ heap.shut.bounds = heap.bounds := by
  have same : heap.shut.bounds = heap.bounds := by simp [Heap.bounds, Heap.shut]
  refine ⟨⟨?_, ?_, ?_⟩, same⟩
  · rw [same]
    exact sound.cells
  · rw [same]
    exact sound.arrays
  · rw [same]
    intro object member
    obtain ⟨original, isThere, rfl⟩ := Array.mem_map.mp member
    obtain ⟨fields, layout, count⟩ := sound.objects original isThere
    exact ⟨fields, layout, count⟩

namespace Numbering

variable {heap : Heap}

/-- Open files make no difference to what a part refers to. -/
theorem refsOf_shut :
    refsOf heap.shut = refsOf heap := by
  funext ref
  cases ref with
  | object id => simp [refsOf, Heap.shut_object]
  | _ => rfl

/-- Open files make no difference to what is seen. -/
theorem see_shut :
    see heap.shut = see heap := by
  funext numbering ref
  cases ref <;> rfl

/-- Open files make no difference to the numbers of parts. -/
theorem ofRoots_shut
    (roots : List HeapRef) :
    ofRoots heap.shut roots = ofRoots heap roots := by
  have drained (bound : Nat) (numbering : Numbering) :
      drain heap.shut bound numbering = drain heap bound numbering := by
    induction bound generalizing numbering with
    | zero => rfl
    | succ bound inductionHypothesis =>
        simp only [drain, see_shut, refsOf_shut, inductionHypothesis]
  have count : heap.shut.partCount = heap.partCount := by simp [Heap.partCount, Heap.shut]
  simp only [ofRoots, drained, see_shut, count]

/-- Open files make no difference to the number of a part. -/
theorem numberOf_shut
    (numbering : Numbering) :
    numbering.numberOf heap.shut = numbering.numberOf heap := by
  funext ref
  cases ref <;> rfl

end Numbering

namespace Machine

variable {setting : Setting} {machine : Machine}

/-- A machine without its open files, over another state of the host. -/
def carriedTo (machine : Machine) (host : Host) : Machine :=
  { machine with
    memory := { machine.memory with world := ⟨machine.memory.world.heap.shut, host⟩ } }

/-- A machine is saved without its open files. -/
theorem save_carriedTo
    (machine : Machine)
    (host : Host)
    (tree : Tree)
    (signature : UInt32) :
    (machine.carriedTo host).save tree signature = machine.save tree signature := by
  have refs : (machine.carriedTo host).refs = machine.refs := rfl
  have record (entry : String) :
      (machine.carriedTo host).record signature entry = machine.record signature entry := by
    simp only [Machine.record, refs]
    simp only [carriedTo, Numbering.ofRoots_shut, Numbering.numberOf_shut, Heap.shut_object]
    rfl
  simp only [Machine.save, record]
  rfl

/--
A suspended machine of a compiled program can be saved and restored, over any
state of the host.  The restored machine is saved as it was itself, unless two
of its parts share a number because the numbers have run out.
-/
theorem restored_saves_same
    {tokens : TokenList}
    (accepted : compile setting.registry tokens = .ok setting.tree)
    (keeps : setting.registry.KeepsHeaps setting.tree)
    (suspended : machine.Suspended setting)
    (signature : UInt32)
    (host : Host) :
    ∃ snapshot restored,
      machine.save setting.tree signature = .ok snapshot ∧
        Machine.restore setting.tree snapshot signature host = .ok restored ∧
        (machine.numbering.Fits → restored.save setting.tree signature = .ok snapshot) := by
  obtain ⟨sound, running, frame, below, frames, -⟩ := suspended.sound keeps
  obtain ⟨heapSound, sameBounds⟩ := sound.memory.heap.shut
  have carried : (machine.carriedTo host).Sound setting.tree :=
    sound.withWorld heapSound sameBounds
  have goesOn : (machine.carriedTo host).frames ≠ [] := by
    change machine.frames ≠ []
    simp [frames]
  have unopened :
      ∀ object ∈ (machine.carriedTo host).memory.world.heap.objects, object.openFile = none := by
    intro object member
    obtain ⟨_, -, rfl⟩ := Array.mem_map.mp member
    rfl
  have sameNumbers : (machine.carriedTo host).numbering = machine.numbering :=
    Numbering.ofRoots_shut _
  have known := suspended.known accepted keeps
  obtain ⟨snapshot, restored, saved, restores, embeds⟩ :=
    carried.restore_record running goesOn known unopened signature
  refine ⟨snapshot, restored, (save_carriedTo ..).symm.trans saved, restores, fun fits => ?_⟩
  rw [← sameNumbers] at fits
  exact ((embeds fits).save carried signature).trans saved

/-- The ring and the open file are left out, and what is left is saved as it was. -/
theorem restored_saves_same_ring :
    let setting := Spelled.setting ringTokens
    let machine := (ringVisit 8).machine
    (compile .standard ringTokens).isOk = true ∧
      machine.Suspended setting ∧
      machine.memory.world.heap.objects.map (·.openFile.isSome) = #[true, false] ∧
      machine.memory.world.heap.cells.size = 9 ∧
      machine.numbering.cells.size = 5 ∧
      ∃ snapshot restored,
        machine.save setting.tree 0 = .ok snapshot ∧
          Machine.restore setting.tree snapshot 0 machine.host = .ok restored ∧
          restored.save setting.tree 0 = .ok snapshot := by
  intro setting machine
  have facts :
      (compile .standard ringTokens).isOk = true ∧
        (setting.tree.function? ⟨0⟩).isSome = true ∧
        (ringVisit 8).status = .paused ∧
        machine.memory.world.heap.objects.map (·.openFile.isSome) = #[true, false] ∧
        machine.memory.world.heap.cells.size = 9 ∧
        machine.numbering.cells.size = 5 ∧
        machine.numbering.arrays.size = 0 ∧
        machine.numbering.objects.size = 1 := by
    decide +kernel
  obtain ⟨accepted, known, paused, files, cells, numbered, arrays, objects⟩ := facts
  have suspended : machine.Suspended setting := .paused _ (.started _ known) paused
  have fits : machine.numbering.Fits :=
    ⟨numbered ▸ by decide, arrays ▸ by decide, objects ▸ by decide⟩
  obtain ⟨snapshot, restored, saved, restores, same⟩ :=
    restored_saves_same (Spelled.setting_accepted accepted)
      (Registry.standard_keepsHeaps setting.tree) suspended 0 machine.host
  exact ⟨accepted, suspended, files, cells, numbered, snapshot, restored, saved, restores,
    same fits⟩

end Machine

end BotScript
