import BotScript.Proofs.Compaction
import BotScript.Proofs.WaitingFrames

namespace BotScript

/-!
# What comes back from a snapshot

A frame that is saved and restored is at the same step and at the same place in its list.  Its
operands come back in order, and references lead to the parts with the numbers under which they
were saved.
-/

/-- The value that a saved value comes back as. -/
def SavedValue.restored : SavedValue → Value
  | .void => .void
  | .bool content => .bool content
  | .int content => .int content
  | .float content => .float content
  | .str content => .str content
  | .nan => .nan
  | .null => .null
  | .array number => .array ⟨number.toNat⟩
  | .object number => .object ⟨number.toNat⟩

/-- The completion that a saved completion comes back as. -/
def SavedCompletion.restored : SavedCompletion → Completion
  | .normal => .normal
  | .value content => .value content.restored
  | .place number => .place ⟨number.toNat⟩
  | .breakTo label => .breakTo label
  | .continueTo label => .continueTo label
  | .returned content => .returned content.restored
  | .thrown error => .thrown error

/-- A value after it has been saved under some numbers and restored. -/
def Value.renamed (number : HeapRef → UInt32) (value : Value) : Value :=
  (SavedValue.ofValue number value).restored

/-- A completion after it has been saved under some numbers and restored. -/
def Completion.renamed (number : HeapRef → UInt32) (completion : Completion) : Completion :=
  (SavedCompletion.ofCompletion number completion).restored

/-- An instance after it has been saved under some numbers and restored. -/
def ObjectId.renamed (number : HeapRef → UInt32) (id : ObjectId) : ObjectId :=
  ⟨(number (.object id)).toNat⟩

/-- A frame that is restored in the place of another one, saved under some numbers. -/
structure Frame.Restores (number : HeapRef → UInt32) (frame restored : Frame) : Prop where
  shape : restored.shape = frame.shape
  cursor : restored.cursor = frame.cursor
  values : restored.values = frame.values.map (Value.renamed number)
  pending : restored.pending = frame.pending.map (Completion.renamed number)

namespace Restored

/-- What a part that must meet a demand is made of. -/
theorem demand_bind_ok
    {α : Type}
    {condition : Bool}
    {defect : SnapshotDefect}
    {rest : Restored α}
    {result : α}
    (restores : (do demand condition defect; rest) = .ok result) :
    condition = true ∧ rest = .ok result := by
  cases condition with
  | false => cases restores
  | true => exact ⟨rfl, restores⟩

namespace Bounds

variable {bounds : Bounds} {tree : Tree}

/-- A saved value can only be restored as what it comes back as. -/
theorem value_restored
    {saved : SavedValue}
    {value : Value}
    (restores : bounds.value saved = .ok value) :
    value = saved.restored := by
  cases saved with
  | array number =>
      cases (demand_bind_ok restores).2
      rfl
  | object number =>
      obtain ⟨id, isObject, rfl⟩ := map_ok restores
      cases (demand_bind_ok isObject).2
      rfl
  | _ =>
      cases restores
      rfl

/-- A saved completion can only be restored as what it comes back as. -/
theorem completion_restored
    {saved : SavedCompletion}
    {completion : Completion}
    (restores : bounds.completion saved = .ok completion) :
    completion = saved.restored := by
  cases saved with
  | value content =>
      obtain ⟨value, isValue, rfl⟩ := map_ok restores
      rw [value_restored isValue]
      rfl
  | place number =>
      obtain ⟨cell, isCell, rfl⟩ := map_ok restores
      cases (demand_bind_ok isCell).2
      rfl
  | returned content =>
      obtain ⟨value, isValue, rfl⟩ := map_ok restores
      rw [value_restored isValue]
      rfl
  | _ =>
      cases restores
      rfl

/-- Saved values come back in order. -/
theorem values_restored
    {saved : List SavedValue}
    {values : List Value}
    (restores : saved.mapM bounds.value = .ok values) :
    values = saved.map SavedValue.restored := by
  induction saved generalizing values with
  | nil =>
      cases restores
      rfl
  | cons first rest inductionHypothesis =>
      rw [List.mapM_cons] at restores
      obtain ⟨value, isValue, restores⟩ := bind_ok restores
      obtain ⟨others, areOthers, restores⟩ := bind_ok restores
      cases restores
      rw [value_restored isValue, inductionHypothesis areOthers, List.map_cons]

/-- What is held back comes back, if there is anything. -/
theorem pending_restored
    {saved : Option SavedCompletion}
    {pending : Option Completion}
    (restores : optional bounds.completion saved = .ok pending) :
    pending = saved.map SavedCompletion.restored := by
  cases saved with
  | none => exact (Except.ok.inj restores).symm
  | some completion =>
      obtain ⟨restored, isRestored, rfl⟩ := map_ok restores
      rw [completion_restored isRestored]
      rfl

/-- A restored frame is at the place of its record and holds back what its record does. -/
theorem frame_place
    {activations : Nat}
    {parent : Option Node}
    {record : FrameRecord}
    {frame : Frame}
    (restores : bounds.frame tree activations parent record = .ok frame) :
    frame.cursor = record.cursor ∧
      frame.pending = record.pending.map SavedCompletion.restored := by
  have rest {frame : Frame} (restores : (do
      let last ← require .frameNode (record.node.lastState? tree)
      demand (record.state ≤ last) .frameState
      demand (record.act.toNat < activations) .frameActivation
      pure
        { node := record.node
          state := record.state
          cursor := record.cursor
          aux := record.aux
          values := ← record.values.mapM bounds.value
          place := ← optional bounds.cell record.place
          pending := ← optional bounds.completion record.pending
          act := record.act } : Restored Frame) = .ok frame) :
      frame.cursor = record.cursor ∧
        frame.pending = record.pending.map SavedCompletion.restored := by
    obtain ⟨last, -, restores⟩ := bind_ok restores
    obtain ⟨_, -, restores⟩ := bind_ok restores
    obtain ⟨_, -, restores⟩ := bind_ok restores
    obtain ⟨values, -, restores⟩ := bind_ok restores
    obtain ⟨place, -, restores⟩ := bind_ok restores
    obtain ⟨pending, isPending, restores⟩ := bind_ok restores
    cases restores
    exact ⟨rfl, pending_restored isPending⟩
  unfold Bounds.frame at restores
  cases parent with
  | none => exact rest restores
  | some parent =>
      obtain ⟨_, -, restores⟩ := bind_ok restores
      exact rest restores

/-- The frames of a chain come back in order. -/
theorem frames_restored
    {number : HeapRef → UInt32}
    {activations : Nat}
    {parent : Option Node}
    {frames restored : List Frame}
    (restores :
      bounds.frames tree activations parent (frames.map (.ofFrame number)) = .ok restored) :
    List.Forall₂ (Frame.Restores number) frames restored := by
  induction frames generalizing parent restored with
  | nil =>
      cases restores
      exact .nil
  | cons frame frames inductionHypothesis =>
      rw [List.map_cons] at restores
      obtain ⟨first, isFirst, restores⟩ := bind_ok restores
      obtain ⟨others, areOthers, restores⟩ := bind_ok restores
      cases restores
      obtain ⟨shape, areValues⟩ := frame_ok isFirst
      obtain ⟨cursor, pending⟩ := frame_place isFirst
      refine .cons ⟨shape, cursor, ?_, ?_⟩ (inductionHypothesis areOthers)
      · rw [values_restored areValues]
        simp [FrameRecord.ofFrame, Value.renamed]
      · rw [pending, FrameRecord.ofFrame, Option.map_map]
        rfl

end Bounds

end Restored

/-- The frames of a restored machine and what it hands on are those of the saved one. -/
theorem Machine.restored_frames
    {setting : Setting}
    {machine result : Machine}
    {snapshot : Snapshot}
    {signature expected : UInt32}
    {host : Host}
    (saved : machine.save setting.tree signature = .ok snapshot)
    (restores : restore setting.tree snapshot expected host = .ok result) :
    List.Forall₂ (Frame.Restores (machine.numbering.numberOf machine.memory.world.heap))
        machine.frames result.frames ∧
      result.incoming =
        machine.incoming.map
          (Completion.renamed (machine.numbering.numberOf machine.memory.world.heap)) := by
  obtain ⟨entry, rfl⟩ := save_ok saved
  obtain ⟨bounds, activations, frames, -, -, -, areFrames, sameFrames, isIncoming, -⟩ :=
    restore_ok restores
  refine ⟨?_, ?_⟩
  · rw [sameFrames, ← List.reverse_reverse machine.frames]
    exact List.rel_reverse (Restored.Bounds.frames_restored areFrames)
  · rw [Restored.Bounds.pending_restored isIncoming, record, Option.map_map]
    rfl

end BotScript
