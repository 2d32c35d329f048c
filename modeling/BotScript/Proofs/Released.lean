import BotScript.Machine.Release
import Mathlib.Algebra.BigOperators.Group.Finset.Basic
import Mathlib.Data.Finset.Card

namespace BotScript

/-!
# Which parts of a heap are released

References are counted, and a part is given up as soon as its count drops to
zero, with the references that it held.  What is left in the end is described
without counts: a part is released when no root refers to it and everything
that refers to it is released.  Parts that refer to each other in a circle
never are.
-/

namespace Heap

variable {heap : Heap} {roots : List HeapRef}

/-- A part that no root refers to, and to which only released parts refer. -/
inductive Released (heap : Heap) (roots : List HeapRef) : Nat → Prop where
  | intro
      {index : Nat} :
      index ∉ roots.map heap.partIndex →
      (∀ holder, holder < heap.partCount → index ∈ heap.partRefs holder →
        Released heap roots holder) →
      Released heap roots index

/-- Roots that refer to the same parts release the same parts. -/
theorem Released.congr
    {others : List HeapRef}
    (same : ∀ index, index ∈ others.map heap.partIndex → index ∈ roots.map heap.partIndex)
    {index : Nat}
    (released : heap.Released roots index) :
    heap.Released others index := by
  induction released with
  | intro unrooted _ inductionHypothesis =>
      exact .intro (fun rooted => unrooted (same _ rooted)) inductionHypothesis

/-! ## Counting references -/

/-- The number of references to a part from the roots and from parts that are not done. -/
def pending (heap : Heap) (roots : List HeapRef) (done : Finset Nat) (index : Nat) : Nat :=
  (roots.map heap.partIndex).count index +
    ∑ holder ∈ Finset.range heap.partCount \ done, (heap.partRefs holder).count index

/-- A part that is done takes its references with it. -/
theorem pending_insert
    {done : Finset Nat}
    {holder : Nat}
    (inside : holder < heap.partCount)
    (fresh : holder ∉ done)
    (index : Nat) :
    heap.pending roots done index =
      heap.pending roots (insert holder done) index + (heap.partRefs holder).count index := by
  have member : holder ∈ Finset.range heap.partCount \ done := by simp [inside, fresh]
  have rest :
      Finset.range heap.partCount \ insert holder done =
        (Finset.range heap.partCount \ done).erase holder := by
    ext other
    simp only [Finset.mem_sdiff, Finset.mem_range, Finset.mem_insert, Finset.mem_erase]
    tauto
  unfold pending
  rw [rest, ← Finset.sum_erase_add _ _ member]
  omega

/-- A part to which nothing pending refers is released if all that is done is. -/
theorem released_of_pending
    {done : Finset Nat}
    (doneReleased : ∀ holder ∈ done, heap.Released roots holder)
    {index : Nat}
    (unreferenced : heap.pending roots done index = 0) :
    heap.Released roots index := by
  obtain ⟨unrooted, unheld⟩ := Nat.add_eq_zero_iff.mp unreferenced
  refine .intro (List.count_eq_zero.mp unrooted) fun holder inside refers => ?_
  by_contra unreleased
  have member : holder ∈ Finset.range heap.partCount \ done := by
    simp only [Finset.mem_sdiff, Finset.mem_range]
    exact ⟨inside, fun done => unreleased (doneReleased holder done)⟩
  exact List.count_eq_zero.mp (Finset.sum_eq_zero_iff.mp unheld holder member) refers

/-- Nothing pending refers to a released part once all parts without references are done. -/
theorem pending_of_released
    {done : Finset Nat}
    (exhausted : ∀ index, index < heap.partCount →
      heap.pending roots done index = 0 → index ∈ done)
    {index : Nat}
    (released : heap.Released roots index) :
    heap.pending roots done index = 0 := by
  induction released with
  | intro unrooted _ inductionHypothesis =>
      refine Nat.add_eq_zero_iff.mpr ⟨List.count_eq_zero.mpr unrooted, ?_⟩
      refine Finset.sum_eq_zero fun holder member => List.count_eq_zero.mpr fun refers => ?_
      simp only [Finset.mem_sdiff, Finset.mem_range] at member
      exact member.2 (exhausted holder member.1 (inductionHypothesis holder member.1 refers))

/-- To count some references adds their number to the counts. -/
theorem foldl_count
    (targets : List Nat)
    (counts : Array Nat)
    (index : Nat) :
    (targets.foldl (fun counts target => counts.modify target (· + 1)) counts)[index]? =
      counts[index]?.map (· + targets.count index) := by
  induction targets generalizing counts with
  | nil => simp
  | cons target rest inductionHypothesis =>
      rw [List.foldl_cons, inductionHypothesis, Array.getElem?_modify, List.count_cons]
      by_cases same : target = index
      · cases counts[index]? <;> simp [same, Nat.add_comm, Nat.add_left_comm]
      · simp [same]

/-- At first every reference is counted. -/
theorem refCounts_getElem?
    {index : Nat}
    (inside : index < heap.partCount) :
    (heap.refCounts roots)[index]? = some (heap.pending roots ∅ index) := by
  unfold refCounts
  dsimp only
  rw [← List.foldl_flatMap, foldl_count, foldl_count, Array.getElem?_replicate, if_pos inside]
  simp only [Option.map_some, pending, Finset.sdiff_empty, Nat.zero_add]
  congr 2
  rw [List.count_flatMap]
  rfl

/-- There is one count for each part. -/
theorem refCounts_size :
    (heap.refCounts roots).size = heap.partCount := by
  have kept (targets : List Nat) (counts : Array Nat) :
      (targets.foldl (fun counts target => counts.modify target (· + 1)) counts).size =
        counts.size := by
    induction targets generalizing counts with
    | nil => rfl
    | cons target rest inductionHypothesis => simp [inductionHypothesis]
  unfold refCounts
  dsimp only
  rw [← List.foldl_flatMap, kept, kept, Array.size_replicate]

/-! ## Giving up parts -/

/-- The counts and what is to be given up while references are dropped. -/
structure Dropping
    (bound : Nat) (left : Nat → Nat) (targets work : List Nat) (counts : Array Nat) :
    Prop where
  counted : ∀ index, counts[index]? =
    if index < bound then some (left index + targets.count index) else none
  workNodup : work.Nodup
  workDone : ∀ index ∈ work, left index + targets.count index = 0

section Dropping

variable {bound target : Nat} {left : Nat → Nat} {targets rest work : List Nat}
  {counts : Array Nat}

/-- A part is given up with its last reference. -/
theorem Dropping.dropRef
    (dropping : Dropping bound left (target :: rest) work counts) :
    let dropped := Heap.dropRef (work, counts) target
    Dropping bound left rest dropped.1 dropped.2 ∧
      ∀ index,
        index ∈ dropped.1 ↔
          index ∈ work ∨ index = target ∧ index < bound ∧ left index + rest.count index = 0 := by
  have lowered (index : Nat) :
      (counts.modify target (· - 1))[index]? =
        if index < bound then some (left index + rest.count index) else none := by
    rw [Array.getElem?_modify, dropping.counted]
    by_cases same : target = index
    · subst same
      by_cases inside : target < bound <;> simp [inside]
    · simp [same]
  have fresh : target ∉ work := by
    intro member
    simpa using dropping.workDone target member
  have still (index : Nat) (member : index ∈ work) : left index + rest.count index = 0 := by
    have none := dropping.workDone index member
    rw [List.count_cons] at none
    omega
  have last :
      (counts.modify target (· - 1))[target]? = some 0 ↔
        target < bound ∧ left target + rest.count target = 0 := by
    rw [lowered]
    by_cases inside : target < bound <;> simp [inside]
  unfold Heap.dropRef
  dsimp only
  by_cases isLast : target < bound ∧ left target + rest.count target = 0
  · rw [if_pos (last.mpr isLast)]
    refine ⟨⟨lowered, List.nodup_cons.mpr ⟨fresh, dropping.workNodup⟩,
      List.forall_mem_cons.mpr ⟨isLast.2, still⟩⟩, fun index => ?_⟩
    rw [List.mem_cons]
    constructor
    · rintro (rfl | member)
      · exact .inr ⟨rfl, isLast⟩
      · exact .inl member
    · rintro (member | ⟨rfl, -⟩)
      · exact .inr member
      · exact .inl rfl
  · rw [if_neg (isLast ∘ last.mp)]
    refine ⟨⟨lowered, dropping.workNodup, still⟩, fun index => ⟨.inl, ?_⟩⟩
    rintro (member | ⟨rfl, isLastAfterAll⟩)
    · exact member
    · exact absurd isLastAfterAll isLast

/-- The parts that lose their last reference when some references are dropped. -/
theorem Dropping.foldl_dropRef
    (dropping : Dropping bound left targets work counts) :
    let dropped := targets.foldl Heap.dropRef (work, counts)
    Dropping bound left [] dropped.1 dropped.2 ∧
      ∀ index,
        index ∈ dropped.1 ↔
          index ∈ work ∨ index < bound ∧ index ∈ targets ∧ left index = 0 := by
  induction targets generalizing work counts with
  | nil => simpa using dropping
  | cons target rest inductionHypothesis =>
      obtain ⟨dropped, members⟩ := dropping.dropRef
      obtain ⟨all, allMembers⟩ := inductionHypothesis dropped
      refine ⟨all, fun index => ?_⟩
      rw [List.foldl_cons, allMembers, members, List.mem_cons]
      -- A reference that is dropped once more below is not the last one yet.
      by_cases again : index ∈ rest
      · have counted := List.count_pos_iff.mpr again
        grind
      · have uncounted := List.count_eq_zero.mpr again
        grind

end Dropping

/-- What holds between two rounds of giving up parts. -/
structure Releasing
    (heap : Heap) (roots : List HeapRef) (work : List Nat) (counts : Array Nat)
    (done : Finset Nat) :
    Prop where
  counted : ∀ index, counts[index]? =
    if index < heap.partCount then some (heap.pending roots done index) else none
  workNodup : work.Nodup
  workPending : ∀ index ∈ work, index < heap.partCount ∧ index ∉ done ∧
    heap.pending roots done index = 0
  doneReleased : ∀ index ∈ done, index < heap.partCount ∧ heap.Released roots index ∧
    heap.pending roots done index = 0
  exhausted : ∀ index, index < heap.partCount → heap.pending roots done index = 0 →
    index ∈ work ∨ index ∈ done

/-- One round: a part without references is done, and its references are dropped. -/
theorem Releasing.round
    {index : Nat}
    {work : List Nat}
    {counts : Array Nat}
    {done : Finset Nat}
    (releasing : heap.Releasing roots (index :: work) counts done) :
    let dropped := (heap.partRefs index).foldl dropRef (work, counts)
    heap.Releasing roots dropped.1 dropped.2 (insert index done) := by
  obtain ⟨inside, fresh, unreferenced⟩ := releasing.workPending index (List.mem_cons_self ..)
  obtain ⟨unqueued, workNodup⟩ := List.nodup_cons.mp releasing.workNodup
  have split (other : Nat) :
      heap.pending roots done other =
        heap.pending roots (insert index done) other + (heap.partRefs index).count other :=
    pending_insert inside fresh other
  have released :=
    released_of_pending (fun holder member => (releasing.doneReleased holder member).2.1)
      unreferenced
  have dropping :
      Dropping heap.partCount (heap.pending roots (insert index done)) (heap.partRefs index)
        work counts :=
    { counted := fun other => by rw [releasing.counted, split]
      workNodup
      workDone := fun other member => by
        rw [← split]
        exact (releasing.workPending other (List.mem_cons_of_mem _ member)).2.2 }
  obtain ⟨dropped, members⟩ := dropping.foldl_dropRef
  refine ⟨dropped.counted, dropped.workNodup, ?_, ?_, ?_⟩
  · intro other member
    rw [members] at member
    rcases member with member | ⟨otherInside, refers, zero⟩
    · obtain ⟨otherInside, otherFresh, none⟩ :=
        releasing.workPending other (List.mem_cons_of_mem _ member)
      refine ⟨otherInside, ?_, ?_⟩
      · rw [Finset.mem_insert, not_or]
        exact ⟨fun same => unqueued (same ▸ member), otherFresh⟩
      · have sum := split other
        omega
    · refine ⟨otherInside, ?_, zero⟩
      have referred := List.count_pos_iff.mpr refers
      have sum := split other
      rw [Finset.mem_insert, not_or]
      refine ⟨?_, fun member => ?_⟩
      · rintro rfl
        omega
      · have none := (releasing.doneReleased other member).2.2
        omega
  · intro other member
    have sum := split other
    rcases Finset.mem_insert.mp member with rfl | member
    · exact ⟨inside, released, by omega⟩
    · obtain ⟨otherInside, otherReleased, none⟩ := releasing.doneReleased other member
      exact ⟨otherInside, otherReleased, by omega⟩
  · intro other otherInside none
    rw [members, Finset.mem_insert]
    by_cases refers : other ∈ heap.partRefs index
    · exact .inl (.inr ⟨otherInside, refers, none⟩)
    · have sum := split other
      rw [List.count_eq_zero.mpr refers] at sum
      rcases releasing.exhausted other otherInside (by omega) with member | member
      · rcases List.mem_cons.mp member with rfl | member
        · exact .inr (.inl rfl)
        · exact .inl (.inl member)
      · exact .inr (.inr member)

/-- At first the parts to which nothing refers are to be given up. -/
theorem releasing_start :
    heap.Releasing roots
      ((List.range heap.partCount).filter fun index =>
        (heap.refCounts roots)[index]? == some 0)
      (heap.refCounts roots) ∅ := by
  have counted (index : Nat) :
      (heap.refCounts roots)[index]? =
        if index < heap.partCount then some (heap.pending roots ∅ index) else none := by
    split
    · next inside => exact refCounts_getElem? inside
    · next outside =>
        refine Array.getElem?_eq_none ?_
        rw [refCounts_size]
        omega
  refine ⟨counted, List.nodup_range.filter _, ?_, by simp, ?_⟩
  · intro index member
    simp only [List.mem_filter, List.mem_range, beq_iff_eq] at member
    refine ⟨member.1, by simp, ?_⟩
    simpa [counted, member.1] using member.2
  · intro index inside none
    refine .inl ?_
    simp [counted, inside, none]

/-- When nothing is left to be given up, exactly the released parts have no references. -/
theorem Releasing.finished
    {counts : Array Nat}
    {done : Finset Nat}
    (releasing : heap.Releasing roots [] counts done)
    {index : Nat}
    (inside : index < heap.partCount) :
    counts[index]? = some 0 ↔ heap.Released roots index := by
  rw [releasing.counted, if_pos inside, Option.some.injEq]
  constructor
  · intro none
    rcases releasing.exhausted index inside none with member | member
    · simp at member
    · exact (releasing.doneReleased index member).2.1
  · refine pending_of_released fun other otherInside none => ?_
    simpa using releasing.exhausted other otherInside none

/-- When all parts are done nothing is left to be given up. -/
theorem Releasing.work_of_card
    {work : List Nat}
    {counts : Array Nat}
    {done : Finset Nat}
    (releasing : heap.Releasing roots work counts done)
    (all : heap.partCount ≤ done.card) :
    work = [] := by
  have within : done ⊆ Finset.range heap.partCount := fun index member =>
    Finset.mem_range.mpr (releasing.doneReleased index member).1
  have whole : done = Finset.range heap.partCount :=
    Finset.eq_of_subset_of_card_le within (by simpa using all)
  refine List.eq_nil_iff_forall_not_mem.mpr fun index member => ?_
  obtain ⟨inside, fresh, -⟩ := releasing.workPending index member
  exact fresh (whole ▸ Finset.mem_range.mpr inside)

/-- With enough rounds exactly the released parts end up without references. -/
theorem releaseParts_eq_zero
    {bound : Nat}
    {work : List Nat}
    {counts : Array Nat}
    {done : Finset Nat}
    (releasing : heap.Releasing roots work counts done)
    (enough : heap.partCount ≤ bound + done.card)
    {index : Nat}
    (inside : index < heap.partCount) :
    (heap.releaseParts bound work counts)[index]? = some 0 ↔ heap.Released roots index := by
  induction bound generalizing work counts done with
  | zero =>
      obtain rfl := releasing.work_of_card (by simpa using enough)
      exact releasing.finished inside
  | succ bound inductionHypothesis =>
      cases work with
      | nil => exact releasing.finished inside
      | cons holder work =>
          have round := releasing.round
          obtain ⟨-, fresh, -⟩ := releasing.workPending holder (List.mem_cons_self ..)
          refine inductionHypothesis round ?_
          rw [Finset.card_insert_of_notMem fresh]
          omega

/-- In the end exactly the released parts have no references. -/
theorem heldCounts_eq_zero
    {index : Nat}
    (inside : index < heap.partCount) :
    (heap.heldCounts roots)[index]? = some 0 ↔ heap.Released roots index :=
  releaseParts_eq_zero releasing_start (by simp) inside

end Heap

/-- Roots that refer to the same parts close the same files. -/
theorem World.closeUnused_congr
    {world : World}
    {roots others : List HeapRef}
    (same : ∀ index,
      index ∈ roots.map world.heap.partIndex ↔ index ∈ others.map world.heap.partIndex) :
    world.closeUnused roots = world.closeUnused others := by
  unfold World.closeUnused
  dsimp only
  split
  · rfl
  · congr 1
    refine List.filter_congr fun index member => ?_
    have inside :
        world.heap.partIndex (.object ⟨index⟩) < world.heap.partCount := by
      have bound := (List.mem_filter.mp member).1
      simp only [List.mem_range] at bound
      simp only [Heap.partIndex, Heap.partCount]
      omega
    rw [Bool.eq_iff_iff, beq_iff_eq, beq_iff_eq, Heap.heldCounts_eq_zero inside,
      Heap.heldCounts_eq_zero inside]
    exact ⟨Heap.Released.congr fun other => (same other).mpr,
      Heap.Released.congr fun other => (same other).mp⟩

end BotScript
