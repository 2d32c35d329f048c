import BotScript.Proofs.HeapSoundness
import BotScript.Snapshot.Save
import Mathlib.Data.Finset.Card

namespace BotScript

/-!
# What a snapshot numbers

The numbers of a snapshot go to exactly the parts that the roots can reach, and
every part of a kind has a number of its own: its position among the parts of
its kind that have been seen.
-/

open Restored (Bounds)

namespace HeapRef

variable {heap : Heap} {first second : HeapRef}

/-- A part of a heap has a number among all its parts. -/
theorem Within.partIndex_lt
    (within : first.Within heap.bounds) :
    heap.partIndex first < heap.partCount := by
  cases first <;> simp only [Within, Heap.bounds, Heap.partIndex, Heap.partCount] at within ⊢ <;>
    omega

/-- Different parts of a heap have different numbers. -/
theorem Within.partIndex_injective
    (firstWithin : first.Within heap.bounds)
    (secondWithin : second.Within heap.bounds)
    (same : heap.partIndex first = heap.partIndex second) :
    first = second := by
  obtain ⟨⟨first⟩⟩ | ⟨⟨first⟩⟩ | ⟨⟨first⟩⟩ := first <;>
    obtain ⟨⟨second⟩⟩ | ⟨⟨second⟩⟩ | ⟨⟨second⟩⟩ := second <;>
    simp only [Within, Heap.bounds, Heap.partIndex, HeapRef.cell.injEq, HeapRef.array.injEq,
      HeapRef.object.injEq, CellId.mk.injEq, ArrayId.mk.injEq, ObjectId.mk.injEq,
      reduceCtorEq] at firstWithin secondWithin same ⊢ <;>
    omega

end HeapRef

/-- A part that a root refers to, or that a part refers to which can be reached. -/
inductive Heap.Reachable (heap : Heap) (roots : List HeapRef) : HeapRef → Prop where
  | root
      {ref : HeapRef} :
      ref ∈ roots →
      Reachable heap roots ref
  | part
      {holder ref : HeapRef} :
      Reachable heap roots holder →
      ref ∈ Numbering.refsOf heap holder →
      Reachable heap roots ref

/-- What the parts of a sound heap refer to exists. -/
theorem Heap.Sound.refsOf
    {tree : Tree}
    {heap : Heap}
    (sound : heap.Sound tree)
    (ref : HeapRef) :
    heap.bounds.Cover (Numbering.refsOf heap ref) := by
  cases ref with
  | cell id => exact sound.cell id
  | array id => simpa [Numbering.refsOf] using (sound.array id).items
  | object id => simpa [Numbering.refsOf] using sound.fields id

/-- What can be reached on a sound heap exists. -/
theorem Heap.Reachable.within
    {tree : Tree}
    {heap : Heap}
    {roots : List HeapRef}
    {ref : HeapRef}
    (reachable : heap.Reachable roots ref)
    (sound : heap.Sound tree)
    (covered : heap.bounds.Cover roots) :
    ref.Within heap.bounds := by
  cases reachable with
  | root member => exact covered _ member
  | part _ member => exact sound.refsOf _ _ member

namespace Numbering

variable {heap : Heap} {roots working : List HeapRef} {numbering : Numbering} {ref other : HeapRef}

/-- The part of a kind that has a position among the numbered ones. -/
def Holds (numbering : Numbering) (position : Nat) : HeapRef → Prop
  | .cell id => numbering.cells[position]? = some id
  | .array id => numbering.arrays[position]? = some id
  | .object id => numbering.objects[position]? = some id

/-- The number that a part has already. -/
def number? (numbering : Numbering) (heap : Heap) (ref : HeapRef) : Option UInt32 :=
  (numbering.numbers[heap.partIndex ref]?).join

/-- The next position for a part of a kind. -/
def count (numbering : Numbering) : HeapRef → Nat
  | .cell _ => numbering.cells.size
  | .array _ => numbering.arrays.size
  | .object _ => numbering.objects.size

/-- The number of parts numbered so far. -/
def total (numbering : Numbering) : Nat :=
  numbering.cells.size + numbering.arrays.size + numbering.objects.size

/--
The numbered parts exist, have different positions, and can be reached.  All
but those that are pending or being worked on refer only to numbered parts.
-/
structure Valid
    (heap : Heap) (roots working : List HeapRef) (numbering : Numbering) : Prop where
  size : numbering.numbers.size = heap.partCount
  numbered : ∀ ref, ref.Within heap.bounds → (numbering.number? heap ref).isSome →
    ∃ position, numbering.Holds position ref
  held : ∀ position ref, numbering.Holds position ref →
    ref.Within heap.bounds ∧ numbering.number? heap ref = some (UInt32.ofNat position)
  unique : ∀ first second ref,
    numbering.Holds first ref → numbering.Holds second ref → first = second
  reachable : ∀ position ref, numbering.Holds position ref → heap.Reachable roots ref
  pending : ∀ ref ∈ numbering.pending, ∃ position, numbering.Holds position ref
  closed : ∀ position ref, numbering.Holds position ref →
    ref ∈ numbering.pending ∨ ref ∈ working ∨
      ∀ other ∈ refsOf heap ref, ∃ position, numbering.Holds position other

/-! ## Seeing parts -/

/-- A part that has no number is put behind the others of its kind. -/
theorem holds_see
    (fresh : numbering.number? heap ref = none)
    (position : Nat)
    (other : HeapRef) :
    (see heap numbering ref).Holds position other ↔
      numbering.Holds position other ∨ other = ref ∧ position = numbering.count ref := by
  have unseen : ((numbering.numbers[heap.partIndex ref]?).join).isSome = false := by
    rw [show (numbering.numbers[heap.partIndex ref]?).join = none from fresh]
    rfl
  have pushed {α : Type} (entries : Array α) (entry candidate : α) :
      (entries.push entry)[position]? = some candidate ↔
        entries[position]? = some candidate ∨ candidate = entry ∧ position = entries.size := by
    rw [Array.getElem?_push]
    split
    · next last => subst last; simp [eq_comm]
    · next other => simp [other]
  cases ref <;> cases other <;>
    simp [see, unseen, enlist, Holds, count, pushed]

/-- A part that has no number gets the next one. -/
theorem number?_see
    (fresh : numbering.number? heap ref = none)
    (size : numbering.numbers.size = heap.partCount)
    (within : ref.Within heap.bounds)
    (otherWithin : other.Within heap.bounds) :
    (see heap numbering ref).number? heap other =
      if other = ref then some (UInt32.ofNat (numbering.count ref))
      else numbering.number? heap other := by
  have unseen : ((numbering.numbers[heap.partIndex ref]?).join).isSome = false := by
    rw [show (numbering.numbers[heap.partIndex ref]?).join = none from fresh]
    rfl
  have numbers :
      (see heap numbering ref).numbers =
        numbering.numbers.setIfInBounds (heap.partIndex ref)
          (some (UInt32.ofNat (numbering.count ref))) := by
    cases ref <;> simp [see, unseen, enlist, count]
  rw [number?, numbers, Array.getElem?_setIfInBounds, size]
  have inside := within.partIndex_lt
  by_cases same : other = ref
  · simp [same, inside]
  · have apart : heap.partIndex ref ≠ heap.partIndex other := fun equal =>
      same (otherWithin.partIndex_injective within equal.symm)
    simp [same, apart, number?]

/-- What seeing a part does to what is pending. -/
theorem pending_see :
    (see heap numbering ref).pending =
      if numbering.number? heap ref = none then ref :: numbering.pending
      else numbering.pending := by
  unfold see
  cases found : (numbering.numbers[heap.partIndex ref]?).join <;>
    cases ref <;> simp_all [number?, enlist]

/-- Every part that gets a number becomes pending. -/
theorem total_see :
    (see heap numbering ref).pending.length + numbering.total =
      numbering.pending.length + (see heap numbering ref).total := by
  unfold see
  cases found : (numbering.numbers[heap.partIndex ref]?).join <;>
    cases ref <;> simp [enlist, total] <;> omega

/-- A part that has a number is seen without effect. -/
theorem see_numbered
    (numbered : (numbering.number? heap ref).isSome) :
    see heap numbering ref = numbering :=
  if_pos numbered

/-- Parts that have been seen stay numbered, and the part seen now is numbered as well. -/
theorem Valid.see
    (valid : Valid heap roots working numbering)
    (within : ref.Within heap.bounds)
    (reachable : heap.Reachable roots ref) :
    Valid heap roots working (see heap numbering ref) ∧
      (∀ position other, numbering.Holds position other →
        (Numbering.see heap numbering ref).Holds position other) ∧
      ∃ position, (Numbering.see heap numbering ref).Holds position ref := by
  cases found : numbering.number? heap ref with
  | some number =>
      have numbered : (numbering.number? heap ref).isSome := by simp [found]
      rw [see_numbered numbered]
      exact ⟨valid, fun _ _ held => held, valid.numbered ref within numbered⟩
  | none =>
      have holds := @holds_see heap numbering ref found
      have number {other : HeapRef} := @number?_see heap numbering ref other found valid.size within
      have unheld (position : Nat) : ¬ numbering.Holds position ref := fun held => by
        simpa [found] using (valid.held position ref held).2
      have kept (position : Nat) (other : HeapRef) (held : numbering.Holds position other) :
          (Numbering.see heap numbering ref).Holds position other :=
        (holds position other).mpr (.inl held)
      have own : (Numbering.see heap numbering ref).Holds (numbering.count ref) ref :=
        (holds _ _).mpr (.inr ⟨rfl, rfl⟩)
      refine ⟨⟨?_, ?_, ?_, ?_, ?_, ?_, ?_⟩, kept, _, own⟩
      · rw [← valid.size]
        unfold Numbering.see
        cases ref <;> split <;> simp [enlist]
      · intro other otherWithin numbered
        by_cases same : other = ref
        · subst same
          exact ⟨_, own⟩
        · rw [number otherWithin, if_neg same] at numbered
          obtain ⟨position, held⟩ := valid.numbered other otherWithin numbered
          exact ⟨position, kept position other held⟩
      · intro position other held
        rcases (holds position other).mp held with before | ⟨rfl, rfl⟩
        · obtain ⟨otherWithin, numbered⟩ := valid.held position other before
          have different : other ≠ ref := by
            rintro rfl
            exact unheld position before
          exact ⟨otherWithin, by rw [number otherWithin, if_neg different, numbered]⟩
        · exact ⟨within, by rw [number within, if_pos rfl]⟩
      · intro first second other firstHeld secondHeld
        rcases (holds first other).mp firstHeld with before | ⟨rfl, rfl⟩ <;>
          rcases (holds second _).mp secondHeld with also | ⟨same, rfl⟩
        · exact valid.unique first second other before also
        · exact absurd (same ▸ before) (unheld first)
        · exact absurd also (unheld second)
        · rfl
      · intro position other held
        rcases (holds position other).mp held with before | ⟨rfl, rfl⟩
        · exact valid.reachable position other before
        · exact reachable
      · intro other member
        rw [pending_see, if_pos found] at member
        rcases List.mem_cons.mp member with rfl | member
        · exact ⟨_, own⟩
        · obtain ⟨position, held⟩ := valid.pending other member
          exact ⟨position, kept position other held⟩
      · intro position other held
        rw [pending_see, if_pos found]
        rcases (holds position other).mp held with before | ⟨rfl, rfl⟩
        · rcases valid.closed position other before with member | member | all
          · exact .inl (List.mem_cons_of_mem _ member)
          · exact .inr (.inl member)
          · refine .inr (.inr fun part member => ?_)
            obtain ⟨place, partHeld⟩ := all part member
            exact ⟨place, kept place part partHeld⟩
        · exact .inl (List.mem_cons_self ..)

/-- Several parts that are seen one behind the other. -/
theorem Valid.seeAll
    (valid : Valid heap roots working numbering)
    {refs : List HeapRef}
    (within : heap.bounds.Cover refs)
    (reachable : ∀ ref ∈ refs, heap.Reachable roots ref) :
    Valid heap roots working (refs.foldl (Numbering.see heap) numbering) ∧
      (∀ position other, numbering.Holds position other →
        (refs.foldl (Numbering.see heap) numbering).Holds position other) ∧
      (∀ ref ∈ refs, ∃ position, (refs.foldl (Numbering.see heap) numbering).Holds position ref) ∧
      (refs.foldl (Numbering.see heap) numbering).pending.length + numbering.total =
        numbering.pending.length + (refs.foldl (Numbering.see heap) numbering).total := by
  induction refs generalizing numbering with
  | nil => exact ⟨valid, fun _ _ held => held, by simp, rfl⟩
  | cons ref rest inductionHypothesis =>
      obtain ⟨restValid, kept, position, own⟩ :=
        valid.see (within ref (List.mem_cons_self ..)) (reachable ref (List.mem_cons_self ..))
      obtain ⟨finalValid, finalKept, all, counts⟩ :=
        inductionHypothesis restValid
          (fun other member => within other (List.mem_cons_of_mem _ member))
          (fun other member => reachable other (List.mem_cons_of_mem _ member))
      refine ⟨finalValid, fun place other held => finalKept place other (kept place other held),
        ?_, ?_⟩
      · intro other member
        rcases List.mem_cons.mp member with rfl | member
        · exact ⟨position, finalKept position other own⟩
        · exact all other member
      · have first := @total_see heap numbering ref
        simp only [List.foldl_cons] at counts ⊢
        omega

/-! ## Seeing everything -/

/-- There are no more numbered parts of a kind than parts of that kind. -/
theorem size_le_of_unique
    {α : Type}
    {entries : Array α}
    {bound : Nat}
    (index : α → Nat)
    (injective : Function.Injective index)
    (inside : ∀ (position : Nat) (entry : α), entries[position]? = some entry →
      index entry < bound)
    (unique : ∀ (first second : Nat) (entry : α),
      entries[first]? = some entry → entries[second]? = some entry → first = second) :
    entries.size ≤ bound := by
  have within :=
    Finset.card_le_card_of_injOn (s := Finset.range entries.size) (t := Finset.range bound)
      (fun position => (entries[position]?.map index).getD 0)
      (fun position member => by
        have found := Array.getElem?_eq_getElem (Finset.mem_range.mp member)
        simpa [found] using inside position _ found)
      (fun first firstMember second secondMember same => by
        have firstFound := Array.getElem?_eq_getElem (Finset.mem_range.mp firstMember)
        have secondFound := Array.getElem?_eq_getElem (Finset.mem_range.mp secondMember)
        simp only [firstFound, secondFound, Option.map_some, Option.getD_some] at same
        exact unique first second _ firstFound (injective same ▸ secondFound))
  simpa using within

/-- There are no more numbered parts than parts. -/
theorem Valid.total_le
    (valid : Valid heap roots working numbering) :
    numbering.total ≤ heap.partCount := by
  have cells : numbering.cells.size ≤ heap.cells.size :=
    size_le_of_unique CellId.index (fun _ _ same => congrArg CellId.mk same)
      (fun position id held => (valid.held position (.cell id) held).1)
      (fun first second id => valid.unique first second (.cell id))
  have arrays : numbering.arrays.size ≤ heap.arrays.size :=
    size_le_of_unique ArrayId.index (fun _ _ same => congrArg ArrayId.mk same)
      (fun position id held => (valid.held position (.array id) held).1)
      (fun first second id => valid.unique first second (.array id))
  have objects : numbering.objects.size ≤ heap.objects.size :=
    size_le_of_unique ObjectId.index (fun _ _ same => congrArg ObjectId.mk same)
      (fun position id held => (valid.held position (.object id) held).1)
      (fun first second id => valid.unique first second (.object id))
  simp only [total, Heap.partCount]
  omega

/-- The parts of what a pending part refers to are seen, and then it is done. -/
theorem Valid.next
    {tree : Tree}
    (sound : heap.Sound tree)
    (valid : Valid heap roots [] numbering)
    {rest : List HeapRef}
    (pending : numbering.pending = ref :: rest) :
    let next := (refsOf heap ref).foldl (Numbering.see heap) { numbering with pending := rest }
    Valid heap roots [] next ∧
      (∀ position other, numbering.Holds position other → next.Holds position other) ∧
      next.pending.length + 1 + numbering.total = numbering.pending.length + next.total := by
  obtain ⟨position, held⟩ := valid.pending ref (by simp [pending])
  have started : Valid heap roots [ref] { numbering with pending := rest } :=
    { size := valid.size
      numbered := valid.numbered
      held := valid.held
      unique := valid.unique
      reachable := valid.reachable
      pending := fun other member => valid.pending other (by simp [pending, member])
      closed := fun place other otherHeld => by
        rcases valid.closed place other otherHeld with member | member | all
        · rw [pending] at member
          rcases List.mem_cons.mp member with rfl | member
          · exact .inr (.inl (List.mem_singleton_self _))
          · exact .inl member
        · simp at member
        · exact .inr (.inr all) }
  obtain ⟨finished, kept, all, counts⟩ :=
    started.seeAll (sound.refsOf ref)
      (fun other member => .part (valid.reachable position ref held) member)
  refine ⟨{ finished with closed := fun place other otherHeld => ?_ }, kept, ?_⟩
  · rcases finished.closed place other otherHeld with member | member | others
    · exact .inl member
    · obtain rfl := List.mem_singleton.mp member
      exact .inr (.inr all)
    · exact .inr (.inr others)
  · have same : Numbering.total { numbering with pending := rest } = numbering.total := rfl
    dsimp only at counts ⊢
    rw [pending, List.length_cons]
    omega

/-- With enough rounds everything that the numbered parts refer to is numbered. -/
theorem Valid.drain
    {tree : Tree}
    (sound : heap.Sound tree)
    {bound : Nat}
    (valid : Valid heap roots [] numbering)
    (enough : numbering.pending.length + heap.partCount ≤ bound + numbering.total) :
    Valid heap roots [] (drain heap bound numbering) ∧
      (∀ position other, numbering.Holds position other →
        (Numbering.drain heap bound numbering).Holds position other) ∧
      (Numbering.drain heap bound numbering).pending = [] := by
  induction bound generalizing numbering with
  | zero =>
      have most := valid.total_le
      exact ⟨valid, fun _ _ held => held, List.length_eq_zero_iff.mp (by
        simp only [Numbering.drain]
        omega)⟩
  | succ bound inductionHypothesis =>
      unfold Numbering.drain
      split
      · next done => exact ⟨valid, fun _ _ held => held, done⟩
      · next ref rest pending =>
          obtain ⟨next, kept, counts⟩ := valid.next sound pending
          obtain ⟨finished, finalKept, done⟩ := inductionHypothesis next (by omega)
          exact ⟨finished, fun place other held => finalKept place other (kept place other held),
            done⟩

/-- A heap of which no part has been seen. -/
theorem valid_empty :
    Valid heap roots [] { numbers := Array.replicate heap.partCount none } where
  size := by simp
  numbered ref within numbered := by
    simp [number?, within.partIndex_lt] at numbered
  held position ref held := by
    cases ref <;> simp [Holds] at held
  unique first second ref held := by
    cases ref <;> simp [Holds] at held
  reachable position ref held := by
    cases ref <;> simp [Holds] at held
  pending ref member := by simp at member
  closed position ref held := by
    cases ref <;> simp [Holds] at held

/-- The numbers of a snapshot go to what the roots can reach. -/
theorem valid_ofRoots
    {tree : Tree}
    (sound : heap.Sound tree)
    (covered : heap.bounds.Cover roots) :
    Valid heap roots [] (ofRoots heap roots) ∧ (ofRoots heap roots).pending = [] ∧
      ∀ ref ∈ roots, ∃ position, (ofRoots heap roots).Holds position ref := by
  obtain ⟨started, -, all, counts⟩ :=
    (@valid_empty heap roots).seeAll covered fun ref member => .root member
  have enough :
      (roots.foldl (see heap) { numbers := Array.replicate heap.partCount none }).pending.length +
          heap.partCount ≤
        heap.partCount +
          (roots.foldl (see heap) { numbers := Array.replicate heap.partCount none }).total := by
    have untouched : Numbering.total { numbers := Array.replicate heap.partCount none } = 0 := rfl
    have idle :
        (Numbering.pending { numbers := Array.replicate heap.partCount none }).length = 0 := rfl
    omega
  obtain ⟨finished, kept, done⟩ := started.drain sound enough
  refine ⟨finished, done, fun ref member => ?_⟩
  obtain ⟨position, held⟩ := all ref member
  exact ⟨position, kept position ref held⟩

end Numbering

end BotScript
