import BotScript.Proofs.LockstepFrame
import BotScript.Proofs.Released
import BotScript.Proofs.SpelledProgram

namespace BotScript

/-!
# Direct evaluation

A frame can be evaluated without a chain: its parts are evaluated by recursion,
and what they deliver is handed back to the frame.  A machine that runs without
a budget does the same to the frame on top of its chain and leaves all frames
beneath it alone.
-/

/-- Why a frame delivers nothing when it is evaluated. -/
inductive Halt where
  /-- The bound on the number of moves was too small. -/
  | outOfFuel
  /-- The host asks the program to stop. -/
  | stopRequested
  /-- The program met a fault that scripts cannot catch. -/
  | broken (fault : Fault)
  deriving Repr, DecidableEq, Inhabited

/-- What a frame delivers, the memory it leaves, and what it shows on the way. -/
structure Evaluation where
  completion : Completion
  memory : Memory
  counted : Nat
  calls : List HostCall
  deriving Repr, DecidableEq, Inhabited

/-- An evaluation behind calls and steps of what was evaluated before it. -/
def Evaluation.behind
    (later : Evaluation) (calls : List HostCall) (counted : Nat) :
    Evaluation :=
  { later with
    calls := calls ++ later.calls
    counted := counted + later.counted }

/--
Evaluate a frame with all its parts.  The fuel bounds the depth of the
recursion; the frames around the evaluated one hold some parts of the heap.
-/
def evaluate (setting : Setting) :
    Nat → List HeapRef → Frame → Option Completion → Memory → Except Halt Evaluation
  | 0, _, _, _, _ => .error .outOfFuel
  | fuel + 1, held, frame, incoming, memory =>
      let calls := (frame.hostCall? setting incoming memory).toList
      match frame.play setting incoming (frame.ready setting held incoming memory) with
      | (.ok (.push frame child), memory) => do
          let part ← evaluate setting fuel (held ++ frame.refs) child none memory
          let rest ← evaluate setting fuel held frame (some part.completion) part.memory
          pure (rest.behind (calls ++ part.calls) part.counted)
      | (.ok (.tick frame), memory) =>
          if memory.world.host.stopRequested then .error .stopRequested
          else do
            let rest ← evaluate setting fuel held frame none memory
            pure (rest.behind calls 1)
      | (.ok (.complete completion), memory) =>
          .ok ⟨completion, Machine.memoryAfter frame memory, 0, calls⟩
      | (.error fault, _) => .error (.broken fault)

namespace Machine

variable {setting : Setting}

/--
Without a budget, a machine runs into another one: after some turns, which
count some steps and call some natives, it is that machine.
-/
def RunsInto
    (setting : Setting) (machine : Machine) (calls : List HostCall) (counted : Nat)
    (later : Machine) :
    Prop :=
  ∃ turns, ∀ more,
    machine.runFor setting (turns + more) none = later.runFor setting more none ∧
      machine.traceFor setting (turns + more) none =
        (calls ++ (later.traceFor setting more none).1,
          counted + (later.traceFor setting more none).2)

namespace RunsInto

/-- One machine runs into another, which runs into a third. -/
theorem trans
    {machine next last : Machine}
    {calls moreCalls : List HostCall}
    {counted moreCounted : Nat}
    (first : machine.RunsInto setting calls counted next)
    (second : next.RunsInto setting moreCalls moreCounted last) :
    machine.RunsInto setting (calls ++ moreCalls) (counted + moreCounted) last := by
  obtain ⟨turns, follows⟩ := first
  obtain ⟨moreTurns, alsoFollows⟩ := second
  refine ⟨turns + moreTurns, fun more => ?_⟩
  obtain ⟨run, traced⟩ := follows (moreTurns + more)
  obtain ⟨laterRun, laterTraced⟩ := alsoFollows more
  rw [Nat.add_assoc]
  exact ⟨run.trans laterRun, by
    rw [traced, laterTraced, List.append_assoc, Nat.add_assoc]⟩

/-- One turn that counts no step. -/
theorem moved
    {machine next : Machine}
    (turn : machine.advance setting = .moved next) :
    machine.RunsInto setting (machine.hostCalls setting) 0 next := by
  refine ⟨1, fun more => ?_⟩
  rw [Nat.add_comm]
  simp [runFor, traceFor, turn]

/-- One turn that counts a step, if the host does not ask the program to stop. -/
theorem counted
    {machine next : Machine}
    (turn : machine.advance setting = .counted next)
    (unstopped : next.host.stopRequested = false) :
    machine.RunsInto setting (machine.hostCalls setting) 1 next := by
  refine ⟨1, fun more => ?_⟩
  rw [Nat.add_comm]
  simp [runFor, traceFor, turn, unstopped, Nat.add_comm]

end RunsInto

end Machine

/-! ## More fuel -/

variable {setting : Setting}

/-- Two memories that differ at most in their lowest activations. -/
structure Memory.SameAbove (first second : Array Activation) (memory other : Memory) : Prop where
  world : other.world = memory.world
  statics : other.statics = memory.statics
  activations :
    ∃ visible,
      memory.activations = first ++ visible ∧ other.activations = second ++ visible

/-- Nothing moves between two memories that differ at most in their lowest activations. -/
theorem Memory.sameAbove_iff
    {first second : Array Activation}
    {memory other : Memory}
    (sizes : second.size = first.size) :
    memory.SameAbove first second other ↔
      Memory.Embeds ⟨.stay, first, second, sizes⟩ memory other := by
  constructor
  · rintro ⟨world, statics, visible, own, otherOwn⟩
    refine ⟨⟨?_, congrArg World.host world⟩, ?_, visible, own, ?_⟩
    · rw [world]
      exact .refl _
    · simpa using statics
    · simpa using otherOwn
  · rintro ⟨⟨heap, host⟩, statics, visible, own, otherOwn⟩
    refine ⟨?_, ?_, visible, own, ?_⟩
    · rw [World.mk.injEq]
      exact ⟨heap.eq_of_stay, host⟩
    · simpa using statics
    · simpa using otherOwn

/-- The parts of the heap that some activations refer to. -/
def activationRefs (activations : Array Activation) : List HeapRef :=
  activations.toList.flatMap Activation.refs

namespace Memory.SameAbove

variable
  {first second : Array Activation} {memory other : Memory}
  {held others : List HeapRef} {frame : Frame}

/-- What is out of sight matters only by the parts of the heap that it holds. -/
theorem ready
    (same : memory.SameAbove first second other)
    (hidden : ∀ ref,
      ref ∈ held ++ activationRefs first ↔ ref ∈ others ++ activationRefs second)
    (frame : Frame)
    (incoming : Option Completion) :
    (frame.ready setting held incoming memory).SameAbove first second
      (frame.ready setting others incoming other) := by
  unfold Frame.ready
  split
  · refine ⟨?_, same.statics, same.activations⟩
    obtain ⟨visible, own, otherOwn⟩ := same.activations
    dsimp only
    rw [same.world]
    refine World.closeUnused_congr fun index => ?_
    have sameRefs (ref : HeapRef) :
        ref ∈ other.refs ++ (others ++ frame.refs) ++ incoming.toList.flatMap Completion.refs ↔
          ref ∈ memory.refs ++ (held ++ frame.refs) ++
            incoming.toList.flatMap Completion.refs := by
      have seen := hidden ref
      simp only [Memory.refs, same.statics, own, otherOwn, activationRefs,
        Array.toList_append, List.flatMap_append, List.mem_append] at seen ⊢
      tauto
    simp only [List.mem_map, sameRefs]
  · exact same

/-- A frame makes the same move whatever is out of sight. -/
theorem play
    (same : memory.SameAbove first second other)
    (sizes : second.size = first.size)
    (visible : first.size ≤ frame.act.toNat)
    (incoming : Option Completion) :
    Agree (fun move counterpart => counterpart = move ∧ move.Above first.size)
        (frame.play setting incoming memory).1 (frame.play setting incoming other).1 ∧
      (frame.play setting incoming memory).2.SameAbove first second
        (frame.play setting incoming other).2 := by
  have embeds := (sameAbove_iff sizes).mp same
  have follows :=
    Frame.play_follows setting.registry.respects_stay embeds visible incoming
  have moves :
      Embedding.Moves ⟨.stay, first, second, sizes⟩ =
        fun move counterpart => counterpart = move ∧ move.Above first.size := by
    funext move counterpart
    simp [Embedding.Moves]
  simpa [sameAbove_iff sizes, moves] using follows

/-- What a frame owned is given up whatever is out of sight. -/
theorem memoryAfter
    (same : memory.SameAbove first second other)
    (sizes : second.size = first.size)
    (visible : first.size ≤ frame.act.toNat) :
    (Machine.memoryAfter frame memory).SameAbove first second
      (Machine.memoryAfter frame other) := by
  have embeds := (sameAbove_iff sizes).mp same
  have follows := Frame.memoryAfter_embeds embeds visible
  simpa [sameAbove_iff sizes] using follows

/-- A frame calls the same natives whatever is out of sight. -/
theorem hostCall?
    (same : memory.SameAbove first second other)
    (sizes : second.size = first.size)
    (frame : Frame)
    (incoming : Option Completion) :
    frame.hostCall? setting incoming other = frame.hostCall? setting incoming memory := by
  have embeds := (sameAbove_iff sizes).mp same
  have follows :
      _ = (frame.hostCall? setting incoming memory).map _ :=
    Frame.hostCall?_follows embeds frame incoming
  simpa using follows

end Memory.SameAbove

/-- Two evaluations that differ at most in the lowest activations. -/
structure Evaluation.SameAbove
    (first second : Array Activation) (evaluation other : Evaluation) : Prop where
  completion : other.completion = evaluation.completion
  memory : evaluation.memory.SameAbove first second other.memory
  counted : other.counted = evaluation.counted
  calls : other.calls = evaluation.calls

namespace Machine

open Spelled (word mark name)

end Machine

end BotScript
