import BotScript.Machine.Release
import BotScript.Machine.Setup

namespace BotScript

/-!
# Running in slices

A machine advances frame by frame.  A slice ends when the program ends, when
its budget of counted steps is used up, or when the host asks it to stop, and
the next slice goes on exactly there.
-/

/-- Whether a program still runs, or how it ended. -/
inductive Outcome where
  | running
  | finished (result : Value)
  | failed (error : RuntimeError)
  /-- The program met a fault that scripts cannot catch. -/
  | broken (fault : Fault)
  deriving Repr, DecidableEq, Inhabited

/-- A running program: its memory and its chain of frames, the innermost frame first. -/
structure Machine where
  memory : Memory
  frames : List Frame
  /-- The completion of the frame that was done last, for the innermost frame. -/
  incoming : Option Completion
  outcome : Outcome
  /-- The number of steps counted since the start. -/
  steps : UInt64
  deriving Repr, DecidableEq, Inhabited

/-- Whether the next step of a frame calls a function of the host. -/
def Frame.callsHost (tree : Tree) (frame : Frame) : Bool :=
  match frame.node with
  | .expression id _ =>
      match (tree.expr id).kind, frame.state with
      | .nativeCall _ arguments, _ => arguments.length ≤ frame.cursor.toNat
      | .methodCall _ _ (.native _) arguments, 1 => arguments.length ≤ frame.cursor.toNat
      | .new _ (some (.native _)) _, 1 => true
      | _, _ => false
  | _ => false

/-- How a slice ended. -/
inductive RunStatus where
  /-- The entry function returned. -/
  | finished
  /-- The budget is used up; another slice goes on. -/
  | paused
  /-- An exception escaped, or the program was stopped. -/
  | failed
  /-- The program met a fault that scripts cannot catch. -/
  | broken
  /-- The bound on the number of turns was too small to end the slice. -/
  | outOfFuel
  deriving Repr, DecidableEq, Inhabited

/-- What one turn of a machine leads to. -/
inductive Turn where
  /-- The chain changed. -/
  | moved (machine : Machine)
  /-- One step was counted. -/
  | counted (machine : Machine)
  /-- The program ended. -/
  | ended (machine : Machine)
  deriving Repr, DecidableEq, Inhabited

namespace Heap

/-- Place the cells of the static fields of a class. -/
def addStatics (heap : Heap) : List FieldDef → Array CellId × Heap
  | [] => (#[], heap)
  | field :: rest =>
      let (id, heap) := heap.addFresh field.ty field.limits
      let (ids, heap) := heap.addStatics rest
      (#[id] ++ ids, heap)

/-- Place the cells of the static fields of several classes. -/
def addClassStatics (heap : Heap) : List ClassDef → Array (Array CellId) × Heap
  | [] => (#[], heap)
  | entry :: rest =>
      let (ids, heap) := heap.addStatics entry.statics
      let (others, heap) := heap.addClassStatics rest
      (#[ids] ++ others, heap)

end Heap

namespace Machine

/-- A machine whose chain consists of the root frame of an entry function. -/
def start (setting : Setting) (entry : FuncId) (host : Host) : Machine :=
  let (statics, heap) := Heap.addClassStatics {} setting.tree.classes.toList
  { memory := ⟨⟨heap, host⟩, #[.bare none], statics⟩
    frames := [.enter (.start entry) 0]
    incoming := none
    outcome := .running
    steps := 0 }

/-- The host as the machine sees it. -/
def host (machine : Machine) : Host :=
  machine.memory.world.host

/-- A machine over another state of the host. -/
def withHost (machine : Machine) (host : Host) : Machine :=
  { machine with memory := { machine.memory with world := ⟨machine.memory.world.heap, host⟩ } }

/-- The parts of the heap that a machine refers to; frames come root first. -/
def refs (machine : Machine) : List HeapRef :=
  machine.memory.refs ++ machine.frames.reverse.flatMap Frame.refs
    ++ machine.incoming.toList.flatMap Completion.refs
    ++ match machine.outcome with
      | .finished result => result.refs
      | _ => []

/-- Close the files of instances that are no longer in use. -/
def closeUnused (machine : Machine) : Machine :=
  let world := machine.memory.world.closeUnused machine.refs
  { machine with memory := { machine.memory with world } }

/-- The state of the host once a machine is given up. -/
def hostAfterDrop (machine : Machine) (host : Host) : Host :=
  ((machine.withHost host).memory.world.closeUnused []).host

/-- The end of a program whose chain is empty. -/
def finish (machine : Machine) : Machine :=
  let outcome :=
    match machine.incoming with
    | some (.thrown error) => .failed error
    | some (.value result) | some (.returned result) => .finished result
    | _ => .finished .void
  { machine with incoming := none, outcome }

/-- Give up the chain after a request to stop. -/
def abort (setting : Setting) (machine : Machine) : Machine :=
  let span := (machine.frames.head?.map fun frame => frame.node.span setting.tree).getD Span.none
  { machine with
    memory := { machine.memory with activations := #[] }
    frames := []
    incoming := none
    outcome := .failed (.ofCode .notRunning span) }

/-- The memory once a frame is done; what the frame owned is given up. -/
def memoryAfter (frame : Frame) : Memory → Memory
  | ⟨world, activations, statics⟩ =>
      if frame.node.ownsActivation then ⟨world, activations.shrink frame.act.toNat, statics⟩
      else ⟨world, activations, statics⟩

/-- One turn: a step of the innermost frame. -/
def advance (setting : Setting) : Machine → Turn
  | ⟨memory, [], incoming, outcome, steps⟩ =>
      .ended (finish ⟨memory, [], incoming, outcome, steps⟩)
  | ⟨memory, frame :: below, incoming, outcome, steps⟩ =>
      let memory :=
        if frame.callsHost setting.tree then
          (closeUnused ⟨memory, frame :: below, incoming, outcome, steps⟩).memory
        else memory
      let (result, memory) := (Step.ofFrame setting frame incoming).run.run memory
      let complete (completion : Completion) : Turn :=
        .moved ⟨memoryAfter frame memory, below, some completion, outcome, steps⟩
      match result with
      | .ok (.push frame child) =>
          .moved ⟨memory, child :: frame :: below, none, outcome, steps⟩
      | .ok (.tick frame) => .counted ⟨memory, frame :: below, none, outcome, steps + 1⟩
      | .ok (.complete completion) => complete completion
      | .error (.propagate completion) => complete completion
      | .error (.fault (.error code)) =>
          complete (.thrown (.ofCode code (frame.node.span setting.tree)))
      | .error (.fault fault) => .ended ⟨memory, frame :: below, none, .broken fault, steps⟩

/-- The status of a machine that has ended. -/
def endStatus (machine : Machine) : RunStatus :=
  match machine.outcome with
  | .finished _ => .finished
  | .broken _ => .broken
  | .failed _ | .running => .failed

/--
Advance until the program ends or the budget is used up.  The fuel bounds the
number of turns, the budget the number of counted steps; no budget is no bound.
-/
def runFor (setting : Setting) :
    Nat → Option Nat → Machine → RunStatus × Machine
  | 0, _, machine => (.outOfFuel, machine)
  | fuel + 1, budget, machine =>
      match machine.advance setting with
      | .moved machine => runFor setting fuel budget machine
      | .ended machine => (machine.endStatus, machine)
      | .counted machine =>
          if machine.host.stopRequested then (.failed, machine.abort setting)
          else
            match budget with
            | some (left + 2) => runFor setting fuel (some (left + 1)) machine
            | some _ => (.paused, machine)
            | none => runFor setting fuel none machine

/-- Run one slice; without a budget the program runs until it ends. -/
def run (setting : Setting) (fuel : Nat) (budget : Option Nat) (machine : Machine) :
    RunStatus × Machine :=
  match machine.outcome with
  | .running =>
      if machine.host.stopRequested then (.failed, machine.abort setting)
      else if budget == some 0 then (.paused, machine)
      else runFor setting fuel budget machine
  | _ => (machine.endStatus, machine)

/-- The return value of the entry function. -/
def result? (machine : Machine) : Option Value :=
  match machine.outcome with
  | .finished result => some result
  | _ => none

/-- The exception that ended the program. -/
def error? (machine : Machine) : Option RuntimeError :=
  match machine.outcome with
  | .failed error => some error
  | _ => none

end Machine

end BotScript
