import BotScript.Machine.Run

namespace BotScript

/-!
# One turn of a machine

A step of a frame either fails with a fault that scripts cannot catch, or makes
one of three moves: an interruption only completes the frame.  Everything that
a turn does with a nonempty chain follows from the move of its innermost frame.
-/

/-- The move of a frame after its step; errors and jumps complete the frame. -/
def Step.settled (tree : Tree) (frame : Frame) : Except Interrupt Move → Except Fault Move
  | .ok move => .ok move
  | .error (.propagate completion) => .ok (.complete completion)
  | .error (.fault (.error code)) =>
      .ok (.complete (.thrown (.ofCode code (frame.node.span tree))))
  | .error (.fault fault) => .error fault

namespace Frame

/-- The move of a frame over a memory, and the memory after it. -/
def play
    (setting : Setting) (frame : Frame) (incoming : Option Completion) (memory : Memory) :
    Except Fault Move × Memory :=
  let (result, memory) := (Step.ofFrame setting frame incoming).run.run memory
  (Step.settled setting.tree frame result, memory)

/-- The memory over which a frame makes its move, when the frames beneath hold some parts. -/
def ready
    (setting : Setting) (held : List HeapRef) (frame : Frame) (incoming : Option Completion)
    (memory : Memory) :
    Memory :=
  if frame.callsHost setting.tree then
    { memory with
      world := memory.world.closeUnused
        (memory.refs ++ (held ++ frame.refs) ++ incoming.toList.flatMap Completion.refs) }
  else memory

end Frame

/-- The machine that a turn leads to. -/
def Turn.machine : Turn → Machine
  | .moved machine | .counted machine | .ended machine => machine

namespace Machine

variable {setting : Setting}

/-- What a turn makes of the move of the innermost frame. -/
def afterMove
    (frame : Frame) (below : List Frame) (outcome : Outcome) (steps : UInt64) :
    Except Fault Move × Memory → Turn
  | (.ok (.push frame child), memory) =>
      .moved ⟨memory, child :: frame :: below, none, outcome, steps⟩
  | (.ok (.tick frame), memory) =>
      .counted ⟨memory, frame :: below, none, outcome, steps + 1⟩
  | (.ok (.complete completion), memory) =>
      .moved ⟨memoryAfter frame memory, below, some completion, outcome, steps⟩
  | (.error fault, memory) =>
      .ended ⟨memory, frame :: below, none, .broken fault, steps⟩

/-- The memory over which the innermost frame of a machine makes its move. -/
def readyMemory (setting : Setting) (machine : Machine) (frame : Frame) : Memory :=
  if frame.callsHost setting.tree then machine.closeUnused.memory else machine.memory

/-- A turn of a chain is the move of its innermost frame. -/
theorem advance_cons
    (memory : Memory)
    (frame : Frame)
    (below : List Frame)
    (incoming : Option Completion)
    (outcome : Outcome)
    (steps : UInt64) :
    advance setting ⟨memory, frame :: below, incoming, outcome, steps⟩ =
      afterMove frame below outcome steps
        (frame.play setting incoming
          (readyMemory setting ⟨memory, frame :: below, incoming, outcome, steps⟩ frame)) := by
  simp only [advance, Frame.play, readyMemory]
  generalize (Step.ofFrame setting frame incoming).run.run _ = taken
  obtain ⟨result, after⟩ := taken
  cases result with
  | ok move => cases move <;> rfl
  | error interrupt =>
      cases interrupt with
      | propagate => rfl
      | fault fault => cases fault <;> rfl

section Innermost

variable {machine : Machine} {frame stay child : Frame} {below : List Frame}
  {completion : Completion}

/-- The innermost frame pushes another one. -/
theorem advance_push
    (frames : machine.frames = frame :: below)
    (step : Step.ofFrame setting frame machine.incoming = pure (.push stay child)) :
    ∃ pushed,
      machine.advance setting = .moved pushed ∧
        pushed.frames = child :: stay :: below ∧ pushed.incoming = none := by
  obtain ⟨memory, _, incoming, outcome, steps⟩ := machine
  cases frames
  rw [advance_cons, Frame.play, step]
  exact ⟨_, rfl, rfl, rfl⟩

/-- The innermost frame is done. -/
theorem advance_complete
    (frames : machine.frames = frame :: below)
    (step : Step.ofFrame setting frame machine.incoming = pure (.complete completion)) :
    ∃ left,
      machine.advance setting = .moved left ∧
        left.frames = below ∧ left.incoming = some completion := by
  obtain ⟨memory, _, incoming, outcome, steps⟩ := machine
  cases frames
  rw [advance_cons, Frame.play, step]
  exact ⟨_, rfl, rfl, rfl⟩

/-- The innermost frame counts a step. -/
theorem advance_tick
    (frames : machine.frames = frame :: below)
    (step : Step.ofFrame setting frame machine.incoming = pure (.tick stay)) :
    ∃ ticked,
      machine.advance setting = .counted ticked ∧
        ticked.frames = stay :: below ∧ ticked.incoming = none := by
  obtain ⟨memory, _, incoming, outcome, steps⟩ := machine
  cases frames
  rw [advance_cons, Frame.play, step]
  exact ⟨_, rfl, rfl, rfl⟩

/-- The innermost frame hands on what it does not handle. -/
theorem advance_propagate
    (frames : machine.frames = frame :: below)
    (step : Step.ofFrame setting frame machine.incoming = throw (.propagate completion)) :
    ∃ left,
      machine.advance setting = .moved left ∧
        left.frames = below ∧ left.incoming = some completion := by
  obtain ⟨memory, _, incoming, outcome, steps⟩ := machine
  cases frames
  rw [advance_cons, Frame.play, step]
  exact ⟨_, rfl, rfl, rfl⟩

end Innermost

/-- A turn that goes on leaves the outcome alone. -/
theorem advance_outcome
    {machine next : Machine}
    (goesOn :
      machine.advance setting = .moved next ∨
        machine.advance setting = .counted next) :
    next.outcome = machine.outcome := by
  obtain ⟨memory, frames, incoming, outcome, steps⟩ := machine
  cases frames with
  | nil =>
      simp [advance] at goesOn
  | cons frame below =>
      rw [advance_cons] at goesOn
      unfold afterMove at goesOn
      split at goesOn <;> simp at goesOn <;> simp [← goesOn]

/-- A turn that moves counts no step. -/
theorem advance_moved_steps
    {machine next : Machine}
    (moved : machine.advance setting = .moved next) :
    next.steps = machine.steps := by
  obtain ⟨memory, frames, incoming, outcome, steps⟩ := machine
  cases frames with
  | nil =>
      simp [advance] at moved
  | cons frame below =>
      rw [advance_cons] at moved
      unfold afterMove at moved
      split at moved <;> simp at moved <;> simp [← moved]

/-- A turn that counts adds one step. -/
theorem advance_counted_steps
    {machine next : Machine}
    (counted : machine.advance setting = .counted next) :
    next.steps = machine.steps + 1 := by
  obtain ⟨memory, frames, incoming, outcome, steps⟩ := machine
  cases frames with
  | nil =>
      simp [advance] at counted
  | cons frame below =>
      rw [advance_cons] at counted
      unfold afterMove at counted
      split at counted <;> simp at counted <;> simp [← counted]

/-- A turn that ends a program counts no step and leaves an outcome. -/
theorem advance_ended
    {machine last : Machine}
    (ended : machine.advance setting = .ended last) :
    last.steps = machine.steps ∧ last.outcome ≠ .running := by
  obtain ⟨memory, frames, incoming, outcome, steps⟩ := machine
  cases frames with
  | nil =>
      simp only [advance, Turn.ended.injEq] at ended
      subst last
      refine ⟨rfl, ?_⟩
      unfold finish
      simp only
      split <;> simp
  | cons frame below =>
      rw [advance_cons] at ended
      unfold afterMove at ended
      split at ended <;> simp at ended <;> simp [← ended]

/-- The status of a machine that has ended is never about fuel or budgets. -/
theorem endStatus_terminal
    (machine : Machine) :
    machine.endStatus ≠ .outOfFuel ∧ machine.endStatus ≠ .paused := by
  unfold endStatus
  cases machine.outcome <;> simp

/-! ## What turns keep -/

section Keeps

variable {holds : Machine → Prop}
  (turns : ∀ machine, holds machine → holds (machine.advance setting).machine)
  (aborts : ∀ machine, holds machine → holds (machine.abort setting))
  {machine : Machine}

include turns aborts

/-- What turns and stops keep, slices keep. -/
theorem runFor_keeps
    (start : holds machine)
    (fuel : Nat)
    (budget : Option Nat) :
    holds (machine.runFor setting fuel budget).2 := by
  induction fuel generalizing machine budget with
  | zero => exact start
  | succ fuel inductionHypothesis =>
      have next := turns machine start
      unfold runFor
      cases turn : machine.advance setting with
      | moved later =>
          rw [turn] at next
          exact inductionHypothesis next budget
      | ended last =>
          rw [turn] at next
          exact next
      | counted later =>
          rw [turn] at next
          dsimp only
          split
          · exact aborts later next
          · obtain _ | _ | _ | left := budget
            · exact inductionHypothesis next _
            · exact next
            · exact next
            · exact inductionHypothesis next _

/-- What turns and stops keep, calls of `run` keep. -/
theorem run_keeps
    (start : holds machine)
    (fuel : Nat)
    (budget : Option Nat) :
    holds (machine.run setting fuel budget).2 := by
  unfold run
  split
  · split
    · exact aborts machine start
    · split
      · exact start
      · exact runFor_keeps turns aborts start fuel budget
  · exact start

end Keeps

end Machine

end BotScript
