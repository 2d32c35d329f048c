import BotScript.Proofs.LockstepFrame
import BotScript.Proofs.LockstepRelease
import BotScript.Proofs.SoundMachine
import BotScript.Proofs.Trace

namespace BotScript

/-!
# Machines in lockstep

A machine lies in another one if its memory does and both chains are the same
up to the move of the heap.  Two such machines take the same turns: whatever
the host does with both of them, they show it the same.
-/

open Restored (Bounds)

/-- The move of a heap as a move of whole memories, with every activation in sight. -/
def Relocation.whole (shift : Relocation) : Embedding :=
  { shift with innerBelow := #[], outerBelow := #[], below_size := rfl }

/-- An outcome on the outer heap. -/
def Relocation.outcome (shift : Relocation) : Outcome → Outcome
  | .finished result => .finished (shift.value result)
  | other => other

/-- A machine as another machine has it. -/
structure Machine.Embeds (shift : Relocation) (inner outer : Machine) : Prop where
  memory : Memory.Embeds shift.whole inner.memory outer.memory
  frames : outer.frames = inner.frames.map shift.frame
  incoming : outer.incoming = inner.incoming.map shift.completion
  outcome : outer.outcome = shift.outcome inner.outcome
  steps : outer.steps = inner.steps

/-- Both machines take the same kind of turn. -/
inductive Turn.Embeds (shift : Relocation) : Turn → Turn → Prop where
  | moved
      {inner outer : Machine} :
      Machine.Embeds shift inner outer →
      Turn.Embeds shift (.moved inner) (.moved outer)
  | counted
      {inner outer : Machine} :
      Machine.Embeds shift inner outer →
      Turn.Embeds shift (.counted inner) (.counted outer)
  | ended
      {inner outer : Machine} :
      Machine.Embeds shift inner outer →
      Turn.Embeds shift (.ended inner) (.ended outer)

/-- Sound machines of which one lies in the other, where everything else fades. -/
structure Machine.Parallel
    (tree : Tree) (shift : Relocation) (inner outer : Machine) : Prop where
  embeds : Machine.Embeds shift inner outer
  fading : shift.Fading
  inner : inner.Sound tree
  outer : outer.Sound tree

/-- A sound machine refers to parts that exist. -/
theorem Machine.Sound.refs
    {tree : Tree}
    {machine : Machine}
    (sound : machine.Sound tree) :
    machine.memory.bounds.Cover machine.refs := by
  unfold Machine.refs Memory.refs
  simp only [Bounds.cover_append, Bounds.cover_flatMap, Bounds.cover_cells, Array.mem_toList_iff,
    List.mem_reverse]
  refine ⟨⟨⟨⟨sound.memory.statics, fun activation member => ?_⟩, fun frame member => ?_⟩, ?_⟩, ?_⟩
  · exact (sound.memory.activations activation member).refs
  · exact (sound.chain (List.ne_nil_of_mem member)).refs frame member
  · simpa using sound.incoming
  · cases outcome : machine.outcome with
    | finished result => exact sound.result result outcome
    | _ => exact Bounds.cover_nil

/-! ## Sound machines within sound machines -/

namespace Heap.Embeds

variable {shift : Relocation} {inner outer : Heap} {tree : Tree}

/-- Parts exist on the inner heap when they do on the outer one. -/
theorem cover_iff
    (embeds : Heap.Embeds shift inner outer)
    {refs : List HeapRef} :
    outer.bounds.Cover (refs.map shift.ref) ↔ inner.bounds.Cover refs := by
  simp only [Bounds.Cover, List.forall_mem_map, embeds.within_iff]

/-- A heap that lies in a sound heap is sound. -/
theorem sound
    (embeds : Heap.Embeds shift inner outer)
    (outerSound : outer.Sound tree) :
    inner.Sound tree := by
  refine ⟨fun cell member => ?_, fun array member => ?_, fun object member => ?_⟩
  · obtain ⟨index, found⟩ := Array.mem_iff_getElem?.mp member
    have moved := embeds.cells.entry index
    rw [found, Option.map_some] at moved
    have covered := outerSound.cells _ (Array.mem_of_getElem? moved)
    simpa [embeds.cover_iff] using covered
  · obtain ⟨index, found⟩ := Array.mem_iff_getElem?.mp member
    have moved := embeds.arrays.entry index
    rw [found, Option.map_some] at moved
    obtain ⟨items, size⟩ := outerSound.arrays _ (Array.mem_of_getElem? moved)
    refine ⟨fun item own => ?_, by simpa using size⟩
    exact (embeds.within_iff (.cell item)).mp (items _ (Array.mem_map_of_mem own))
  · obtain ⟨index, found⟩ := Array.mem_iff_getElem?.mp member
    have moved := embeds.objects.entry index
    rw [found, Option.map_some] at moved
    obtain ⟨fields, layout, count⟩ := outerSound.objects _ (Array.mem_of_getElem? moved)
    refine ⟨fun field own => ?_, layout, by simpa using count⟩
    exact (embeds.within_iff (.cell field)).mp (fields _ (Array.mem_map_of_mem own))

end Heap.Embeds

/-- A chain that has been moved was a chain before. -/
theorem Chain.of_moved
    {shift : Relocation}
    {tree : Tree}
    {inner outer : Heap}
    (embeds : Heap.Embeds shift inner outer)
    {height : Nat}
    {frames : List Frame}
    (chain : Chain tree outer.bounds height (frames.map shift.frame)) :
    Chain tree inner.bounds height frames := by
  have back {frame : Frame} (sound : (shift.frame frame).Sound tree outer.bounds) :
      frame.Sound tree inner.bounds := by
    refine ⟨sound.state, embeds.cover_iff.mp ?_⟩
    have covered := sound.refs
    rwa [Relocation.refs_frame] at covered
  generalize moved : frames.map shift.frame = outerFrames at chain
  induction chain generalizing frames with
  | root sound isRoot known act =>
      obtain ⟨frame, rfl, rfl⟩ := List.map_eq_singleton_iff.mp moved
      exact .root (back sound) isRoot known act
  | part sound pushes shares act _ inductionHypothesis =>
      obtain ⟨frame, rest, rfl, rfl, restMoved⟩ := List.map_eq_cons_iff.mp moved
      obtain ⟨parent, below, rfl, rfl, -⟩ := List.map_eq_cons_iff.mp restMoved
      exact .part (back sound) pushes shares act (inductionHypothesis restMoved)
  | owner sound pushes owns act _ inductionHypothesis =>
      obtain ⟨frame, rest, rfl, rfl, restMoved⟩ := List.map_eq_cons_iff.mp moved
      obtain ⟨parent, below, rfl, rfl, -⟩ := List.map_eq_cons_iff.mp restMoved
      exact .owner (back sound) pushes owns act (inductionHypothesis restMoved)

/-- A memory that lies in a sound memory is sound. -/
theorem Memory.Embeds.sound
    {shift : Relocation}
    {tree : Tree}
    {inner outer : Memory}
    (embeds : Memory.Embeds shift.whole inner outer)
    (outerSound : outer.Sound tree) :
    inner.Sound tree := by
  have heap : Heap.Embeds shift inner.world.heap outer.world.heap := embeds.world.heap
  obtain ⟨visible, own, outerOwn⟩ := embeds.activations
  simp only [Relocation.whole, Array.empty_append] at own outerOwn
  refine ⟨heap.sound outerSound.heap, fun fields member cell cellMember => ?_, ?_,
    fun activation member => ?_⟩
  · have covered := outerSound.statics (fields.map shift.cell)
      (by rw [embeds.statics]; exact Array.mem_map_of_mem member) (shift.cell cell)
      (Array.mem_map_of_mem cellMember)
    exact (heap.within_iff (.cell cell)).mp covered
  · rw [← outerSound.staticShape, embeds.statics]
    simp [Function.comp_def]
  · have covered := outerSound.activations (shift.activation activation)
      (by rw [outerOwn, ← own]; exact Array.mem_map_of_mem member)
    refine ⟨heap.cover_iff.mp ?_, fun id named => ?_⟩
    · have refs := covered.refs
      rwa [Relocation.refs_activation] at refs
    · obtain ⟨function, found, count⟩ := covered.locals id named
      exact ⟨function, found, by simpa [Relocation.activation] using count⟩

namespace Machine.Embeds

variable {shift : Relocation} {setting : Setting} {inner outer : Machine}

section

variable (embeds : Machine.Embeds shift inner outer)

include embeds

/-- A machine that lies in a sound machine is sound. -/
theorem sound
    {tree : Tree}
    (outerSound : outer.Sound tree) :
    inner.Sound tree := by
  have heap : Heap.Embeds shift inner.memory.world.heap outer.memory.world.heap :=
    embeds.memory.world.heap
  refine ⟨embeds.memory.sound outerSound.memory, fun goesOn => ?_, heap.cover_iff.mp ?_,
    fun result finished => heap.cover_iff.mp ?_⟩
  · have sizes : outer.memory.activations.size = inner.memory.activations.size := by
      obtain ⟨visible, own, outerOwn⟩ := embeds.memory.activations
      simp [own, outerOwn, Relocation.whole]
    have chain := outerSound.chain (by simpa [embeds.frames] using goesOn)
    rw [embeds.frames, sizes] at chain
    exact Chain.of_moved heap chain
  · have covered := outerSound.incoming
    rw [embeds.incoming] at covered
    cases incoming : inner.incoming with
    | none => exact Bounds.cover_nil
    | some completion =>
        rw [incoming] at covered
        simpa [Memory.bounds] using covered
  · have covered := outerSound.result (shift.value result)
      (by rw [embeds.outcome, finished]; rfl)
    rwa [Relocation.refs_value] at covered

/-- The same host state on both machines. -/
theorem host :
    outer.host = inner.host :=
  embeds.memory.world.host

/-- Both machines refer to the same parts. -/
theorem refs :
    outer.refs = inner.refs.map shift.ref := by
  obtain ⟨visible, own, outerOwn⟩ := embeds.memory.activations
  simp only [Relocation.whole, Array.empty_append] at own outerOwn
  unfold Machine.refs Memory.refs
  rw [embeds.memory.statics, outerOwn, own, embeds.frames, embeds.incoming, embeds.outcome]
  simp only [List.map_append, Array.toList_map, List.flatMap_map, List.map_flatMap,
    ← List.map_reverse, Relocation.refs_frame, Relocation.refs_activation, Relocation.whole]
  congr 1
  · congr 1
    · congr 1
      congr 1
      simp [Function.comp_def, Relocation.ref]
    · cases inner.incoming <;> simp
  · cases inner.outcome <;> simp [Relocation.outcome]

/-- The end of a chain on both machines. -/
theorem finish :
    Machine.Embeds shift inner.finish outer.finish := by
  refine ⟨embeds.memory, embeds.frames, rfl, ?_, embeds.steps⟩
  unfold Machine.finish
  dsimp only
  rw [embeds.incoming]
  cases inner.incoming with
  | none => rfl
  | some completion => cases completion <;> rfl

/-- Both chains are given up. -/
theorem abort :
    Machine.Embeds shift (inner.abort setting) (outer.abort setting) := by
  have none : (#[] : Array Activation) = #[] ++ #[].map shift.activation := by simp
  refine ⟨⟨embeds.memory.world, embeds.memory.statics, #[], rfl, none⟩, rfl, rfl, ?_,
    embeds.steps⟩
  simp only [Machine.abort, Relocation.outcome, embeds.frames, List.head?_map, Option.map_map]
  rfl

/-- Both machines end with the same status. -/
theorem endStatus :
    outer.endStatus = inner.endStatus := by
  unfold Machine.endStatus
  rw [embeds.outcome]
  cases inner.outcome <;> rfl

/-- Another state of the host on both machines. -/
theorem withHost
    (host : Host) :
    Machine.Embeds shift (inner.withHost host) (outer.withHost host) :=
  ⟨⟨⟨embeds.memory.world.heap, rfl⟩, embeds.memory.statics, embeds.memory.activations⟩,
    embeds.frames, embeds.incoming, embeds.outcome, embeds.steps⟩

/-- The next turn shows the host the same call of a native. -/
theorem hostCalls :
    outer.hostCalls setting = (inner.hostCalls setting).map shift.hostCall := by
  unfold Machine.hostCalls
  rw [embeds.frames]
  cases inner.frames with
  | nil => rfl
  | cons frame below =>
      have same :=
        @Frame.hostCall?_follows shift.whole setting _ _ embeds.memory frame inner.incoming
      dsimp only [List.map_cons]
      rw [embeds.incoming]
      refine (congrArg Option.toList same).trans ?_
      cases frame.hostCall? setting inner.incoming inner.memory <;> rfl

end

/-- A frame calls the host on both machines or on none. -/
theorem callsHost_frame
    (tree : Tree)
    (frame : Frame) :
    (shift.frame frame).callsHost tree = frame.callsHost tree := rfl

/-- Both machines make the same of the moves of their innermost frames. -/
theorem afterMove
    {frame : Frame}
    {below : List Frame}
    {outcome : Outcome}
    {steps : UInt64}
    {first second : Except Fault Move}
    {innerMemory outerMemory : Memory}
    (moves : Agree shift.whole.Moves first second)
    (memory : Memory.Embeds shift.whole innerMemory outerMemory) :
    Turn.Embeds shift
      (Machine.afterMove frame below outcome steps (first, innerMemory))
      (Machine.afterMove (shift.frame frame) (below.map shift.frame) (shift.outcome outcome) steps
        (second, outerMemory)) := by
  cases moves with
  | error => exact .ended ⟨memory, rfl, rfl, rfl, rfl⟩
  | @ok move _ moved =>
      obtain ⟨rfl, -⟩ := moved
      cases move with
      | push frame child => exact .moved ⟨memory, rfl, rfl, rfl, rfl⟩
      | tick frame => exact .counted ⟨memory, rfl, rfl, rfl, rfl⟩
      | complete completion =>
          exact .moved
            ⟨Frame.memoryAfter_embeds memory (Nat.zero_le _), rfl, rfl, rfl, rfl⟩

end Machine.Embeds

namespace Machine.Parallel

variable {tree : Tree} {shift : Relocation} {setting : Setting} {inner outer : Machine}

/-- Both machines close the same files. -/
theorem closeUnused
    (parallel : Machine.Parallel tree shift inner outer) :
    Machine.Parallel tree shift inner.closeUnused outer.closeUnused := by
  refine ⟨?_, parallel.fading, parallel.inner.closeUnused, parallel.outer.closeUnused⟩
  obtain ⟨embeds, fading, innerSound, outerSound⟩ := parallel
  have covered := outerSound.refs
  have world :
      World.Embeds shift (inner.memory.world.closeUnused inner.refs)
        (outer.memory.world.closeUnused outer.refs) := by
    rw [embeds.refs] at covered ⊢
    exact embeds.memory.world.closeUnused fading innerSound.memory.heap outerSound.memory.heap
      innerSound.refs covered
  exact ⟨⟨world, embeds.memory.statics, embeds.memory.activations⟩, embeds.frames,
    embeds.incoming, embeds.outcome, embeds.steps⟩

/-- Another state of the host on both machines. -/
theorem withHost
    (parallel : Machine.Parallel tree shift inner outer)
    (host : Host) :
    Machine.Parallel tree shift (inner.withHost host) (outer.withHost host) :=
  ⟨parallel.embeds.withHost host, parallel.fading, parallel.inner.withHost host,
    parallel.outer.withHost host⟩

/-- Both chains are given up. -/
theorem abort
    (parallel : Machine.Parallel tree shift inner outer) :
    Machine.Parallel tree shift (inner.abort setting) (outer.abort setting) :=
  ⟨parallel.embeds.abort, parallel.fading, parallel.inner.abort, parallel.outer.abort⟩

/-- Both machines take the same turn. -/
theorem turn
    (natives : setting.registry.Respects shift)
    (parallel : Machine.Parallel tree shift inner outer) :
    Turn.Embeds shift (inner.advance setting) (outer.advance setting) := by
  have closed := parallel.closeUnused.embeds
  obtain ⟨embeds, -, -, -⟩ := parallel
  obtain ⟨memory, frames, incoming, outcome, steps⟩ := inner
  obtain ⟨outerMemory, outerFrames, outerIncoming, outerOutcome, outerSteps⟩ := outer
  obtain ⟨inMemory, sameFrames, sameIncoming, sameOutcome, sameSteps⟩ := embeds
  dsimp only at sameFrames sameIncoming sameOutcome sameSteps
  subst sameFrames sameIncoming sameOutcome outerSteps
  cases frames with
  | nil =>
      have embeds :
          Machine.Embeds shift ⟨memory, [], incoming, outcome, steps⟩
            ⟨outerMemory, [], incoming.map shift.completion, shift.outcome outcome, steps⟩ :=
        ⟨inMemory, rfl, rfl, rfl, rfl⟩
      exact .ended embeds.finish
  | cons frame below =>
      rw [List.map_cons, advance_cons, advance_cons]
      have ready :
          Memory.Embeds shift.whole
            (readyMemory setting ⟨memory, frame :: below, incoming, outcome, steps⟩ frame)
            (readyMemory setting
              ⟨outerMemory, shift.frame frame :: below.map shift.frame,
                incoming.map shift.completion, shift.outcome outcome, steps⟩
              (shift.frame frame)) := by
        unfold readyMemory
        rw [Machine.Embeds.callsHost_frame]
        split
        · exact closed.memory
        · exact inMemory
      obtain ⟨moves, after⟩ :=
        @Frame.play_follows shift.whole frame setting _ _ natives ready (Nat.zero_le _) incoming
      exact Machine.Embeds.afterMove moves after

variable (keeps : setting.registry.KeepsHeaps setting.tree)
  (natives : setting.registry.Respects shift)

include keeps natives

/-- Slices with the same fuel and budget are the same on both machines. -/
theorem runFor
    (parallel : Machine.Parallel setting.tree shift inner outer)
    (fuel : Nat)
    (budget : Option Nat) :
    (outer.runFor setting fuel budget).1 = (inner.runFor setting fuel budget).1 ∧
      Machine.Parallel setting.tree shift (inner.runFor setting fuel budget).2
        (outer.runFor setting fuel budget).2 ∧
      outer.traceFor setting fuel budget =
        ((inner.traceFor setting fuel budget).1.map shift.hostCall,
          (inner.traceFor setting fuel budget).2) := by
  induction fuel generalizing inner outer budget with
  | zero => exact ⟨rfl, parallel, rfl⟩
  | succ fuel inductionHypothesis =>
      have calls := @Machine.Embeds.hostCalls shift setting _ _ parallel.embeds
      have turn := parallel.turn natives
      have innerSound := parallel.inner.advance keeps
      have outerSound := parallel.outer.advance keeps
      unfold Machine.runFor Machine.traceFor
      rw [calls]
      revert turn innerSound outerSound
      generalize inner.advance setting = innerTurn
      generalize outer.advance setting = outerTurn
      intro turn innerSound outerSound
      cases turn with
      | moved embeds =>
          obtain ⟨status, after, trace⟩ :=
            inductionHypothesis ⟨embeds, parallel.fading, innerSound, outerSound⟩ budget
          exact ⟨status, after, by simp [trace]⟩
      | ended embeds =>
          exact ⟨embeds.endStatus, ⟨embeds, parallel.fading, innerSound, outerSound⟩, rfl⟩
      | counted embeds =>
          have next : Machine.Parallel setting.tree shift _ _ :=
            ⟨embeds, parallel.fading, innerSound, outerSound⟩
          dsimp only
          rw [embeds.host]
          split
          · exact ⟨rfl, next.abort, rfl⟩
          · obtain _ | _ | _ | left := budget
            · obtain ⟨status, after, trace⟩ := inductionHypothesis next none
              exact ⟨status, after, by simp [trace]⟩
            · exact ⟨rfl, next, rfl⟩
            · exact ⟨rfl, next, rfl⟩
            · obtain ⟨status, after, trace⟩ := inductionHypothesis next (some (left + 1))
              exact ⟨status, after, by simp [trace]⟩

/-- Calls of `run` with the same fuel and budget are the same on both machines. -/
theorem run
    (parallel : Machine.Parallel setting.tree shift inner outer)
    (fuel : Nat)
    (budget : Option Nat) :
    (outer.run setting fuel budget).1 = (inner.run setting fuel budget).1 ∧
      Machine.Parallel setting.tree shift (inner.run setting fuel budget).2
        (outer.run setting fuel budget).2 ∧
      outer.trace setting fuel budget =
        ((inner.trace setting fuel budget).1.map shift.hostCall,
          (inner.trace setting fuel budget).2) := by
  unfold Machine.run Machine.trace
  rw [parallel.embeds.outcome, parallel.embeds.host]
  cases inner.outcome with
  | running =>
      dsimp only [Relocation.outcome]
      split
      · next stop => exact ⟨rfl, parallel.abort, by simp [stop]⟩
      · next goesOn =>
          split
          · next spent => exact ⟨rfl, parallel, by simp [spent]⟩
          · next unspent =>
              have running : (inner.host.stopRequested || budget == some 0) = false := by
                simp [goesOn, unspent]
              rw [running]
              exact parallel.runFor keeps natives fuel budget
  | _ => exact ⟨parallel.embeds.endStatus, parallel, rfl⟩

end Machine.Parallel

end BotScript
