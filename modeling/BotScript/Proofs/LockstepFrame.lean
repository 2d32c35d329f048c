import BotScript.Proofs.LockstepExpression
import BotScript.Proofs.Trace
import BotScript.Proofs.Turn

namespace BotScript

/-!
# Frames in lockstep

The step of every frame over an outer memory follows the step over the inner
one.  So do the moves that a chain makes of these steps and the calls of
natives that they show to the host.
-/

namespace Step.Follows

variable {embedding : Embedding} {frame : Frame} {setting : Setting}

section

variable (visible : embedding.innerBelow.size ≤ frame.act.toNat)

include visible

/-- The entry function. -/
theorem callEntry
    (entry : FuncId) :
    Follows embedding embedding.Moves (Step.callEntry setting frame entry)
      (Step.callEntry setting (embedding.frame frame) entry) := by
  refine (require_same _ _).bind ?_
  rintro function _ rfl
  refine (activationFor function entry none).bind ?_
  rintro activation _ rfl
  refine (pushActivation setting activation).bind ?_
  rintro _ act ⟨rfl, above⟩
  exact push (by exact visible) above

/-- The next initial value of a static field, or the entry function. -/
theorem startNext
    (entry : FuncId) :
    Follows embedding embedding.Moves (Step.startNext setting frame entry)
      (Step.startNext setting (embedding.frame frame) entry) := by
  unfold Step.startNext
  dsimp only
  rw [Relocation.frame_cursor, Relocation.frame_aux]
  split
  · next cursor aux initial _ =>
      exact pushExpression (by exact visible) initial .value
  · exact callEntry (by exact visible) entry

omit visible in
/-- The initial value of a static field. -/
theorem storeStatic
    (value : Value) :
    Follows embedding Eq (Step.storeStatic setting frame value)
      (Step.storeStatic setting (embedding.frame frame) (embedding.value value)) := by
  unfold Step.storeStatic
  dsimp only
  rw [Relocation.frame_cursor, Relocation.frame_aux]
  refine (require_same _ _).bind ?_
  rintro field _ rfl
  refine (require_same _ field.initial).bind ?_
  rintro initial _ rfl
  refine (typeOf _ initial).bind ?_
  rintro source _ rfl
  refine get.bind fun inner outer embeds => ?_
  have cell :
      ((outer.statics[frame.cursor.toNat]?).getD #[])[frame.aux.toNat]? =
        ((inner.statics[frame.cursor.toNat]?).getD #[])[frame.aux.toNat]?.map
          embedding.cell := by
    rw [embeds.statics, Array.getElem?_map]
    cases inner.statics[frame.cursor.toNat]? <;> simp
  rw [cell]
  refine (require _ _).bind ?_
  rintro cell _ rfl
  exact storeDeclared cell value source field.limits

/-- The root frame. -/
theorem start
    (entry : FuncId)
    (incoming : Option Completion) :
    Follows embedding embedding.Moves (Step.start setting frame entry incoming)
      (Step.start setting (embedding.frame frame) entry
        (incoming.map embedding.completion)) := by
  unfold Step.start
  rw [Relocation.frame_state]
  split
  · exact startNext visible entry
  · refine (valueOf incoming).bind ?_
    rintro value _ rfl
    refine (storeStatic value).bind fun _ _ _ => ?_
    exact startNext (by exact visible) entry
  · exact callEntry visible entry
  · refine (valueOf incoming).bind ?_
    rintro value _ rfl
    exact complete (.value value)

/-- The body of a function. -/
theorem function
    (id : FuncId)
    (incoming : Option Completion) :
    Follows embedding embedding.Moves (Step.function setting frame id incoming)
      (Step.function setting (embedding.frame frame) id
        (incoming.map embedding.completion)) := by
  refine (part _).bind ?_
  rintro function _ rfl
  rw [Relocation.frame_state]
  have unreturned :
      Follows embedding embedding.Moves
        (if function.result.isVoid then Pure.pure (.complete (.value .void))
        else Step.raise .noReturnValue)
        (if function.result.isVoid then Pure.pure (.complete (.value .void))
        else Step.raise .noReturnValue) := by
    split
    · exact complete (.value .void)
    · exact raise _
  split
  · refine (require_same _ function.body).bind ?_
    rintro body _ rfl
    exact pushStatement (by exact visible) body
  · obtain _ | completion := incoming
    · exact unreturned
    · cases completion with
      | returned value => exact complete (.value value)
      | thrown error => exact complete (.thrown error)
      | normal => exact unreturned
      | value value => exact unreturned
      | place cell => exact unreturned
      | breakTo label => exact unreturned
      | continueTo label => exact unreturned

omit visible in
/-- The fields of a new instance up to the next initial value. -/
theorem setupFrom
    (this : ObjectId)
    (visible : embedding.innerBelow.size ≤ frame.act.toNat)
    (fields : List FieldDef) :
    Follows embedding embedding.Moves (Step.setupFrom this frame fields)
      (Step.setupFrom (embedding.object this) (embedding.frame frame) fields) := by
  induction fields generalizing frame with
  | nil => exact done
  | cons field rest inductionHypothesis =>
      have goOn :=
        @inductionHypothesis { frame with cursor := frame.cursor + 1 } visible
      unfold Step.setupFrom
      split
      · next initial _ =>
          exact pushExpression (by exact visible) initial .value
      · dsimp only
        split
        · refine heap.bind fun inner outer embeds => ?_
          rw [embeds.object, Relocation.fields_fields, Relocation.frame_cursor,
            Array.getElem?_map]
          refine (require _ _).bind ?_
          rintro cell _ rfl
          refine (allocate (R := Renamed embedding.content) fun _ _ embeds =>
            embeds.freshCell field.ty field.limits).bind ?_
          rintro content _ rfl
          refine (modifyHeap fun _ _ embeds => embeds.setCell cell content).bind
            fun _ _ _ => ?_
          exact goOn
        · exact goOn

omit visible in
/-- The initial value of a field. -/
theorem storeField
    (tree : Tree)
    (this : ObjectId)
    (fields : List FieldDef)
    (value : Value) :
    Follows embedding Eq (Step.storeField tree this frame fields value)
      (Step.storeField tree (embedding.object this) (embedding.frame frame) fields
        (embedding.value value)) := by
  unfold Step.storeField
  rw [Relocation.frame_cursor]
  refine (require_same _ _).bind ?_
  rintro field _ rfl
  refine (require_same _ field.initial).bind ?_
  rintro initial _ rfl
  refine (typeOf _ initial).bind ?_
  rintro source _ rfl
  refine heap.bind fun inner outer embeds => ?_
  rw [embeds.object, Relocation.fields_fields, Array.getElem?_map]
  refine (require _ _).bind ?_
  rintro cell _ rfl
  exact storeDeclared cell value source field.limits

/-- The field values of a new instance. -/
theorem fieldSetup
    (owner : ClassId)
    (incoming : Option Completion) :
    Follows embedding embedding.Moves (Step.fieldSetup setting frame owner incoming)
      (Step.fieldSetup setting (embedding.frame frame) owner
        (incoming.map embedding.completion)) := by
  refine (part _).bind ?_
  rintro _ _ rfl
  refine (activationOf visible).bind ?_
  rintro activation _ rfl
  refine (require _ activation.this).bind ?_
  rintro this _ rfl
  rw [Relocation.frame_state]
  split
  · refine (valueOf incoming).bind ?_
    rintro value _ rfl
    refine (storeField setting.tree this _ value).bind fun _ _ _ => ?_
    exact setupFrom this (by exact visible) _
  · refine (settle incoming).bind fun _ _ _ => ?_
    exact setupFrom this visible _

end

/-- A frame. -/
theorem ofFrame
    (natives : setting.registry.Respects embedding.toRelocation)
    (visible : embedding.innerBelow.size ≤ frame.act.toNat)
    (incoming : Option Completion) :
    Follows embedding embedding.Moves (Step.ofFrame setting frame incoming)
      (Step.ofFrame setting (embedding.frame frame)
        (incoming.map embedding.completion)) := by
  unfold Step.ofFrame
  rw [Relocation.frame_node]
  split
  · exact start visible _ incoming
  · exact function visible _ incoming
  · exact fieldSetup visible _ incoming
  · exact statement setting visible _ incoming
  · exact expression natives visible _ _ incoming

end Step.Follows

/-- A call of a native as the outer host sees it. -/
def Relocation.hostCall (shift : Relocation) (call : HostCall) : HostCall :=
  { call with call := shift.call call.call }

/-- Without a move calls of natives stay the same. -/
@[simp] theorem Relocation.stay_hostCall : Relocation.stay.hostCall = id := by
  funext call
  simp [Relocation.hostCall, Relocation.call]

namespace Step.Follows

variable {embedding : Embedding} {frame : Frame}

/-- The native call that the next step of a frame makes. -/
theorem hostCallOf
    (tree : Tree)
    (frame : Frame)
    (incoming : Option Completion) :
    Follows embedding (Renamed (Option.map embedding.hostCall))
      (Step.hostCallOf tree frame incoming)
      (Step.hostCallOf tree (embedding.frame frame)
        (incoming.map embedding.completion)) := by
  unfold Step.hostCallOf
  rw [Relocation.frame_node]
  split
  · refine (part _).bind ?_
    rintro ⟨kind, ty, span⟩ _ rfl
    dsimp only
    rw [Relocation.frame_state]
    split
    · refine (collect frame _ incoming).bind ?_
      rintro ⟨collected, next⟩ _ ⟨rfl, -⟩
      cases next with
      | some next => exact pure rfl
      | none =>
          refine (typesOf tree _).bind ?_
          rintro types _ rfl
          exact pure rfl
    · refine (collect frame _ incoming).bind ?_
      rintro ⟨collected, next⟩ _ ⟨rfl, -⟩
      cases next with
      | some next => exact pure rfl
      | none =>
          dsimp only
          rw [Relocation.frame_values, List.head?_map, ← List.map_drop]
          refine (receiver collected.values.head?).bind ?_
          rintro this _ rfl
          refine (typesOf tree _).bind ?_
          rintro types _ rfl
          exact pure rfl
    · refine (settle incoming).bind fun _ _ _ => ?_
      rw [Relocation.frame_values, List.getLast?_map, ← List.map_dropLast]
      refine (require _ frame.values.getLast?).bind ?_
      rintro last _ rfl
      refine (receiver (some last)).bind ?_
      rintro this _ rfl
      refine (typesOf tree _).bind ?_
      rintro types _ rfl
      exact pure rfl
    · exact pure rfl
  · exact pure rfl

end Step.Follows

namespace Frame

variable {embedding : Embedding} {frame : Frame} {setting : Setting} {inner outer : Memory}

/-- Both chains show the host the same call of a native. -/
theorem hostCall?_follows
    (embeds : Memory.Embeds embedding inner outer)
    (frame : Frame)
    (incoming : Option Completion) :
    (embedding.frame frame).hostCall? setting (incoming.map embedding.completion) outer =
      (frame.hostCall? setting incoming inner).map embedding.hostCall := by
  have follows := Step.Follows.hostCallOf setting.tree frame incoming inner outer embeds
  unfold Frame.hostCall?
  revert follows
  generalize (Step.hostCallOf setting.tree frame incoming).run.run inner = innerResult
  generalize (Step.hostCallOf setting.tree (embedding.frame frame) _).run.run outer =
    outerResult
  intro follows
  cases follows with
  | ok call _ => exact call
  | error _ => rfl

/-- Both chains make the same move, over memories of which one lies in the other. -/
theorem play_follows
    (natives : setting.registry.Respects embedding.toRelocation)
    (embeds : Memory.Embeds embedding inner outer)
    (visible : embedding.innerBelow.size ≤ frame.act.toNat)
    (incoming : Option Completion) :
    Agree embedding.Moves (frame.play setting incoming inner).1
        ((embedding.frame frame).play setting (incoming.map embedding.completion) outer).1 ∧
      Memory.Embeds embedding (frame.play setting incoming inner).2
        ((embedding.frame frame).play setting (incoming.map embedding.completion) outer).2 := by
  have follows := Step.Follows.ofFrame natives visible incoming inner outer embeds
  unfold Frame.play
  revert follows
  generalize (Step.ofFrame setting frame incoming).run.run inner = innerResult
  generalize (Step.ofFrame setting (embedding.frame frame) _).run.run outer = outerResult
  intro follows
  cases follows with
  | ok moves later => exact ⟨.ok moves, later⟩
  | @error interrupt _ _ later =>
      refine ⟨?_, later⟩
      match interrupt with
      | .propagate completion => exact .ok ⟨rfl, trivial⟩
      | .fault (.error code) => exact .ok ⟨rfl, trivial⟩
      | .fault .endlessText => exact .error
      | .fault .cellInUse => exact .error
      | .fault .missingPart => exact .error

/-- To shrink an array behind its first part leaves the first part alone. -/
theorem shrink_append
    {α : Type}
    {first second : Array α}
    {size : Nat}
    (behind : first.size ≤ size) :
    (first ++ second).shrink size = first ++ second.shrink (size - first.size) := by
  apply Array.toList_inj.mp
  simp [List.take_of_length_le, behind]

/-- To shrink an array commutes with renaming its entries. -/
theorem map_shrink
    {α β : Type}
    {entries : Array α}
    {rename : α → β}
    {size : Nat} :
    (entries.map rename).shrink size = (entries.shrink size).map rename := by
  apply Array.toList_inj.mp
  simp

/-- What a frame owned is given up on both sides. -/
theorem memoryAfter_embeds
    (embeds : Memory.Embeds embedding inner outer)
    (visible : embedding.innerBelow.size ≤ frame.act.toNat) :
    Memory.Embeds embedding (Machine.memoryAfter frame inner)
      (Machine.memoryAfter (embedding.frame frame) outer) := by
  obtain ⟨own, innerOwn, outerOwn⟩ := embeds.activations
  obtain ⟨innerWorld, innerActivations, innerStatics⟩ := inner
  obtain ⟨outerWorld, outerActivations, outerStatics⟩ := outer
  simp only at innerOwn outerOwn
  subst innerOwn outerOwn
  simp only [Machine.memoryAfter]
  by_cases owns : frame.node.ownsActivation = true
  case neg =>
      rw [if_neg owns, if_neg (by exact owns)]
      exact embeds
  case pos =>
      rw [if_pos owns, if_pos (by exact owns)]
      refine ⟨embeds.world, embeds.statics,
        own.shrink (frame.act.toNat - embedding.innerBelow.size), ?_, ?_⟩
      · exact shrink_append visible
      · rw [← map_shrink, ← embedding.below_size]
        exact shrink_append (embedding.below_size ▸ visible)

end Frame

end BotScript
