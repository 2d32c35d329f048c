import BotScript.Proofs.Discipline
import BotScript.Proofs.NormalMachine
import BotScript.Proofs.PushedParts

namespace BotScript

/-!
# Frames that wait

In every state of a program, also after it has been saved and restored, the frames
belong to the activations, and the frames below the innermost one can wait.  So a turn
that counts no step never leads to a loop that is about to test for another round.
-/

/-- What a part is made of if it can be restored. -/
theorem Restored.map_ok
    {α β : Type}
    {first : Restored α}
    {build : α → β}
    {result : β}
    (restores : first.map build = .ok result) :
    ∃ value, first = .ok value ∧ build value = result := by
  cases first with
  | error error => cases restores
  | ok value => exact ⟨value, rfl, Except.ok.inj restores⟩

namespace Restored.Bounds

variable {bounds : Bounds} {tree : Tree}

/-- Restored frames have the shapes of their records. -/
theorem frames_shape
    {activations : Nat}
    {parent : Option Node}
    {records : List FrameRecord}
    {frames : List Frame}
    (restores : bounds.frames tree activations parent records = .ok frames) :
    frames.map Frame.shape = records.map fun record => (record.node, record.state, record.act) := by
  induction records generalizing parent frames with
  | nil =>
      cases restores
      rfl
  | cons record records inductionHypothesis =>
      obtain ⟨first, isFirst, restores⟩ := bind_ok restores
      obtain ⟨others, areOthers, restores⟩ := bind_ok restores
      cases restores
      rw [List.map_cons, List.map_cons, (frame_ok isFirst).1, inductionHypothesis areOthers]

/-- Restored cells are as many as their numbers. -/
theorem size_cellArray
    {numbers : List UInt32}
    {cells : Array CellId}
    (restores : bounds.cellArray numbers = .ok cells) :
    cells.size = numbers.length := by
  obtain ⟨_, -, restores⟩ := bind_ok restores
  cases restores
  simp

/-- A restored activation has the outline of its record. -/
theorem activation_outline
    {record : ActivationRecord}
    {activation : Activation}
    (restores : bounds.activation tree record = .ok activation) :
    activation.outline = ⟨record.function, record.locals.length⟩ := by
  have rest {activation : Activation} (restores : (do
      pure
        { function := record.function
          this := ← optional bounds.object record.this
          locals := ← bounds.cellArray record.locals } : Restored Activation) = .ok activation) :
      activation.outline = ⟨record.function, record.locals.length⟩ := by
    obtain ⟨this, -, restores⟩ := bind_ok restores
    obtain ⟨locals, areLocals, restores⟩ := bind_ok restores
    cases restores
    simp [Activation.outline, size_cellArray areLocals]
  unfold Bounds.activation at restores
  split at restores
  · obtain ⟨_, -, restores⟩ := bind_ok restores
    obtain ⟨_, -, restores⟩ := bind_ok restores
    exact rest restores
  · exact rest restores

/-- Restored activations have the outlines of their records. -/
theorem activations_outlines
    {records : List ActivationRecord}
    {activations : List Activation}
    (restores : records.mapM (bounds.activation tree) = .ok activations) :
    activations.map Activation.outline =
      records.map fun record => ⟨record.function, record.locals.length⟩ := by
  induction records generalizing activations with
  | nil =>
      cases restores
      rfl
  | cons record records inductionHypothesis =>
      rw [List.mapM_cons] at restores
      obtain ⟨first, isFirst, restores⟩ := bind_ok restores
      obtain ⟨others, areOthers, restores⟩ := bind_ok restores
      cases restores
      rw [List.map_cons, List.map_cons, activation_outline isFirst, inductionHypothesis areOthers]

/-- A completion that is saved and restored can be handed to the same nodes. -/
theorem completion_takes
    {number : HeapRef → UInt32}
    {completion restored : Completion}
    {node : Node}
    (takes : node.Takes completion)
    (restores : bounds.completion (.ofCompletion number completion) = .ok restored) :
    node.Takes restored := by
  intro outside abrupt
  cases completion with
  | normal =>
      cases restores
      cases abrupt
  | value content =>
      obtain ⟨_, -, rfl⟩ := map_ok restores
      cases abrupt
  | place cell =>
      obtain ⟨_, -, rfl⟩ := map_ok restores
      cases abrupt
  | thrown error =>
      cases restores
      exact ⟨error, rfl⟩
  | _ =>
      obtain ⟨_, isThrown⟩ := takes outside rfl
      cases isThrown
end Restored.Bounds

/-! ## Stacked frames -/

/-- Whether frames are stacked over activations depends on their shapes. -/
theorem Stacked.ofShapes
    {tree : Tree}
    {outlines : List Outline}
    {frames others : List Frame}
    (stacked : Stacked tree outlines frames)
    (shapes : others.map Frame.shape = frames.map Frame.shape) :
    Stacked tree outlines others := by
  have parts {frame other : Frame} (same : other.shape = frame.shape) :
      other.node = frame.node ∧ other.act = frame.act := by
    obtain ⟨node, -, act⟩ : _ ∧ _ ∧ _ := by simpa [Frame.shape] using same
    exact ⟨node, act⟩
  induction stacked generalizing others with
  | empty =>
      rw [List.map_nil, List.map_eq_nil_iff] at shapes
      exact shapes ▸ .empty
  | root isRoot isFirst =>
      obtain ⟨other, rest, rfl, same, empty⟩ := List.map_eq_cons_iff.mp shapes
      rw [List.map_nil, List.map_eq_nil_iff] at empty
      obtain ⟨node, act⟩ := parts same
      exact empty ▸ .root (node.trans isRoot) (act.trans isFirst)
  | part shares carries sameAct _ inductionHypothesis =>
      obtain ⟨other, rest, rfl, same, shapes⟩ := List.map_eq_cons_iff.mp shapes
      have stacked := inductionHypothesis shapes
      obtain ⟨parent, below, rfl, sameParent, -⟩ := List.map_eq_cons_iff.mp shapes
      obtain ⟨node, act⟩ := parts same
      obtain ⟨parentNode, parentAct⟩ := parts sameParent
      exact .part (node ▸ shares) (node ▸ parentNode ▸ carries)
        (act.trans (sameAct.trans parentAct.symm)) stacked
  | owner owns carries heads isTop _ inductionHypothesis =>
      obtain ⟨other, rest, rfl, same, shapes⟩ := List.map_eq_cons_iff.mp shapes
      have stacked := inductionHypothesis shapes
      obtain ⟨parent, below, rfl, sameParent, -⟩ := List.map_eq_cons_iff.mp shapes
      obtain ⟨node, act⟩ := parts same
      obtain ⟨parentNode, -⟩ := parts sameParent
      exact .owner (node ▸ owns) (node ▸ parentNode ▸ carries) (node ▸ heads) (act ▸ isTop) stacked

/-! ## Pushed frames -/

/-- The move of a frame, errors and jumps included, is one that it can make. -/
theorem Frame.play_descends
    {setting : Setting}
    {frame : Frame}
    {incoming : Option Completion}
    {memory after : Memory}
    {move : Move}
    (played : frame.play setting incoming memory = (.ok move, after)) :
    move.Descends setting.tree frame := by
  have descends := Step.Descends.ofFrame setting frame incoming memory
  unfold Frame.play at played
  revert descends played
  generalize (Step.ofFrame setting frame incoming).run.run memory = taken
  obtain ⟨result, reached⟩ := taken
  intro played descends
  cases descends with
  | ok descends =>
      cases played
      exact descends
  | @fault fault =>
      cases fault with
      | error code =>
          cases played
          exact .ends
      | _ => cases played
  | propagate =>
      cases played
      exact .ends

/-- What stays below a pushed frame can wait. -/
theorem Move.Descends.canWait
    {tree : Tree}
    {origin stay child : Frame}
    (descends : Move.Descends tree origin (.push stay child)) :
    stay.CanWait tree ∧ child.state = 0 := by
  cases descends with
  | runs canWait => exact ⟨canWait, rfl⟩
  | calls canWait => exact ⟨canWait, rfl⟩
  | setsUp canWait => exact ⟨canWait, rfl⟩
  | evaluates canWait => exact ⟨canWait, rfl⟩
  | setsOut _ isNode _ begun => exact ⟨Frame.canWait_of_setup isNode begun, rfl⟩

/-- Whether a frame can wait depends on its shape. -/
theorem Frame.CanWait.ofShape
    {tree : Tree}
    {frame other : Frame}
    (canWait : frame.CanWait tree)
    (same : other.shape = frame.shape) :
    other.CanWait tree := by
  obtain ⟨node, state, -⟩ : _ ∧ _ ∧ _ := by simpa [Frame.shape] using same
  refine ⟨?_, ?_, fun owner isSetup => state ▸ canWait.setUp owner (node ▸ isSetup)⟩
  · rintro ⟨id, isStatement, isFirst⟩
    exact canWait.entered ⟨id, node ▸ isStatement, state ▸ isFirst⟩
  · rintro ⟨id, stored, isStatement, isStored, atRound⟩
    exact canWait.begun ⟨id, stored, node ▸ isStatement, isStored, state ▸ atRound⟩

namespace Machine

variable {setting : Setting} {machine result next : Machine}

/-- A restored machine has frames of the same shapes over activations with the same outlines. -/
theorem restored_shape
    {snapshot : Snapshot}
    {signature expected : UInt32}
    {host : Host}
    (saved : machine.save setting.tree signature = .ok snapshot)
    (restores : restore setting.tree snapshot expected host = .ok result) :
    result.frames.map Frame.shape = machine.frames.map Frame.shape ∧
      result.memory.outlines = machine.memory.outlines ∧
      ∀ node : Node, (∀ completion ∈ machine.incoming, node.Takes completion) →
        ∀ completion ∈ result.incoming, node.Takes completion := by
  obtain ⟨entry, rfl⟩ := save_ok saved
  obtain ⟨bounds, activations, frames, -, areActivations, sameActivations, areFrames, sameFrames,
    isIncoming, -⟩ := restore_ok restores
  refine ⟨?_, ?_, fun node takes completion isCompletion => ?_⟩
  · rw [sameFrames, List.map_reverse, Restored.Bounds.frames_shape areFrames]
    simp [record, FrameRecord.ofFrame, Frame.shape, Function.comp_def]
  · rw [Memory.outlines, sameActivations, List.toList_toArray,
      Restored.Bounds.activations_outlines areActivations]
    simp [record, Memory.outlines, Activation.outline, Function.comp_def]
  · simp only [record] at isIncoming
    cases handed : machine.incoming with
    | none =>
        rw [handed] at isIncoming
        rw [← Except.ok.inj isIncoming] at isCompletion
        cases isCompletion
    | some original =>
        rw [handed] at isIncoming
        obtain ⟨restored, isRestored, same⟩ := Restored.map_ok isIncoming
        rw [← same] at isCompletion
        cases isCompletion
        exact Restored.Bounds.completion_takes (takes original handed) isRestored

/-- A restored machine is aligned. -/
theorem Aligned.restored
    {snapshot : Snapshot}
    {signature expected : UInt32}
    {host : Host}
    (aligned : machine.Aligned setting)
    (saved : machine.save setting.tree signature = .ok snapshot)
    (restores : restore setting.tree snapshot expected host = .ok result) :
    result.Aligned setting := by
  obtain ⟨shapes, outlines, takes⟩ := restored_shape saved restores
  refine ⟨outlines ▸ aligned.stacked.ofShapes shapes, outlines ▸ aligned.depth, ?_⟩
  intro frame below frames completion handed
  rw [frames] at shapes
  obtain ⟨original, rest, isThere, same, -⟩ := List.map_eq_cons_iff.mp shapes.symm
  have node : frame.node = original.node := congrArg Prod.fst same.symm
  rw [node]
  exact takes original.node (aligned.takes original rest isThere) completion handed

/-- A machine whose program ends is aligned. -/
theorem Aligned.ended
    {last : Machine}
    (aligned : machine.Aligned setting)
    (ended : machine.advance setting = .ended last) :
    last.Aligned setting := by
  obtain ⟨memory, frames, incoming, outcome, steps⟩ := machine
  cases frames with
  | nil =>
      cases ended
      exact ⟨aligned.stacked, aligned.depth, fun _ _ isThere => by cases isThere⟩
  | cons frame below =>
      rw [advance_cons] at ended
      have ready :
          (readyMemory setting ⟨memory, frame :: below, incoming, outcome, steps⟩ frame).outlines =
            memory.outlines := by
        unfold readyMemory
        split <;> rfl
      have obeyed := Step.Obeys.ofFrame setting frame memory.outlines
        (aligned.takes frame below rfl) _ ready
      unfold Frame.play at ended
      revert ended obeyed
      generalize (Step.ofFrame setting frame incoming).run.run _ = taken
      obtain ⟨result, after⟩ := taken
      intro ended obeyed
      cases result with
      | ok move => cases move <;> cases ended
      | error interrupt =>
          cases interrupt with
          | propagate => cases ended
          | fault fault =>
              have outlines : after.outlines = memory.outlines := by
                cases obeyed
                assumption
              cases fault with
              | error code => cases ended
              | _ =>
                  cases ended
                  exact ⟨outlines ▸ aligned.stacked, outlines ▸ aligned.depth,
                    fun _ _ _ _ handed => by cases handed⟩

/-- Every state of a program is aligned. -/
theorem Attained.aligned (attained : machine.Attained setting) : machine.Aligned setting := by
  induction attained with
  | started entry host => exact aligned_start entry host
  | @advanced machine _ inductionHypothesis =>
      cases turn : machine.advance setting with
      | moved next => exact inductionHypothesis.advance (.inl turn)
      | counted next => exact inductionHypothesis.advance (.inr turn)
      | ended last => exact inductionHypothesis.ended turn
  | aborted _ _ => exact ⟨.empty, Nat.zero_le _, fun _ _ isThere => by cases isThere⟩
  | withHost host _ inductionHypothesis => exact inductionHypothesis.goes (.withHost host)
  | closeUnused _ inductionHypothesis => exact inductionHypothesis.goes .closeUnused
  | restored host _ saved restores inductionHypothesis =>
      exact inductionHypothesis.restored saved restores

/-! ## Waiting frames -/

/-- The frames below the innermost one can wait. -/
def Waits (setting : Setting) (machine : Machine) : Prop :=
  ∀ frame ∈ machine.frames.tail, frame.CanWait setting.tree

/-- A turn keeps the frames below the innermost one waiting. -/
theorem Waits.advance
    (waits : machine.Waits setting) :
    (machine.advance setting).machine.Waits setting := by
  obtain ⟨memory, frames, incoming, outcome, steps⟩ := machine
  cases frames with
  | nil => exact fun _ member => by cases member
  | cons frame below =>
      rw [advance_cons]
      generalize played :
        frame.play setting incoming
          (readyMemory setting ⟨memory, frame :: below, incoming, outcome, steps⟩ frame) = taken
      obtain ⟨result, after⟩ := taken
      cases result with
      | error fault => exact waits
      | ok move =>
          have descends := Frame.play_descends played
          cases move with
          | push stay child => exact List.forall_mem_cons.mpr ⟨descends.canWait.1, waits⟩
          | tick stay => exact waits
          | complete completion => exact fun frame member => waits frame (List.mem_of_mem_tail member)

/-- In every state of a program the frames below the innermost one can wait. -/
theorem Attained.waits (attained : machine.Attained setting) : machine.Waits setting := by
  induction attained with
  | started entry host => exact fun _ member => by cases member
  | advanced _ inductionHypothesis => exact inductionHypothesis.advance
  | aborted _ _ => exact fun _ member => by cases member
  | withHost host _ inductionHypothesis => exact inductionHypothesis
  | closeUnused _ inductionHypothesis => exact inductionHypothesis
  | @restored machine restored snapshot signature expected host _ saved restores
      inductionHypothesis =>
      intro frame member
      have shapes := congrArg List.tail (restored_shape saved restores).1
      rw [← List.map_tail, ← List.map_tail] at shapes
      obtain ⟨original, isOriginal, same⟩ :=
        List.mem_map.mp (shapes ▸ List.mem_map_of_mem (f := Frame.shape) member)
      exact (inductionHypothesis original isOriginal).ofShape same.symm

/-- A chain that is done makes no turn. -/
theorem frames_ne_nil
    (moved : machine.advance setting = .moved next) :
    machine.frames ≠ [] := by
  obtain ⟨memory, _ | ⟨frame, below⟩, incoming, outcome, steps⟩ := machine
  · cases moved
  · exact List.cons_ne_nil frame below

/-- A turn that counts no step pushes a frame or takes the innermost one away. -/
theorem frames_moved
    {frame : Frame}
    {below : List Frame}
    (frames : machine.frames = frame :: below)
    (moved : machine.advance setting = .moved next) :
    (∃ stay child,
        Move.Descends setting.tree frame (.push stay child) ∧
          next.frames = child :: stay :: below) ∨
      next.frames = below := by
  obtain ⟨memory, _, incoming, outcome, steps⟩ := machine
  cases frames
  rw [advance_cons] at moved
  generalize played :
    frame.play setting incoming
      (readyMemory setting ⟨memory, frame :: below, incoming, outcome, steps⟩ frame) = taken
    at moved
  obtain ⟨result, after⟩ := taken
  cases result with
  | error fault => cases moved
  | ok move =>
      cases move with
      | tick stay => cases moved
      | push stay child =>
          cases moved
          exact .inl ⟨stay, child, Frame.play_descends played, rfl⟩
      | complete completion =>
          cases moved
          exact .inr rfl

/-- After a turn that counts no step, no loop is about to test for another round. -/
theorem Waits.head_not_atRound
    {frame : Frame}
    {below : List Frame}
    (waits : machine.Waits setting)
    (moved : machine.advance setting = .moved next)
    (frames : next.frames = frame :: below) :
    ¬ frame.AtRound setting.tree := by
  obtain ⟨top, rest, former⟩ := List.exists_cons_of_ne_nil (frames_ne_nil moved)
  obtain ⟨stay, child, descends, pushed⟩ | left := frames_moved former moved
  · cases frames.symm.trans pushed
    rintro ⟨id, node, -, -, atRound⟩
    rw [descends.canWait.2] at atRound
    exact node.kind.roundState?_ne_zero atRound
  · refine (waits frame ?_).begun
    rw [former, List.tail_cons, ← left, frames]
    exact List.mem_cons_self

/-! ## Turns that count no step -/

/-- A turn that counts no step. -/
def Moves (setting : Setting) (machine next : Machine) : Prop :=
  machine.advance setting = .moved next

/-- Turns that count no step lead to a state of the program. -/
theorem Attained.moves
    (attained : machine.Attained setting)
    (moves : Relation.ReflTransGen (Moves setting) machine next) :
    next.Attained setting := by
  induction moves with
  | refl => exact attained
  | tail _ moved inductionHypothesis =>
      have advanced := inductionHypothesis.advanced
      rwa [moved] at advanced

/-- A statement that is entered counts a step. -/
theorem advance_atEntry
    {frame : Frame}
    {below : List Frame}
    (frames : machine.frames = frame :: below)
    (atEntry : frame.AtEntry) :
    ∃ next, machine.advance setting = .counted next := by
  obtain ⟨id, isNode, isFirst⟩ := atEntry
  have step : Step.ofFrame setting frame machine.incoming =
      pure (.tick { frame with state := 1 }) := by
    unfold Step.ofFrame
    rw [isNode]
    dsimp only
    unfold Step.statement
    rw [isFirst, isNode]
    rfl
  obtain ⟨next, counted, -⟩ := advance_tick frames step
  exact ⟨next, counted⟩

end Machine

end BotScript
