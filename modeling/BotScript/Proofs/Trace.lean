import BotScript.Machine.Run

namespace BotScript

/-!
# What a run shows to the host

Besides its final state, a run shows the host the native functions it calls,
with their receivers and arguments, and the number of steps it counts.  This
module reads both off the turns of a machine: `Machine.traceFor` takes the same
turns as `Machine.runFor`.
-/

/-- A call of a native function with its receiver, arguments and static types. -/
structure HostCall where
  native : NativeId
  call : NativeCall
  deriving Repr, DecidableEq, Inhabited

namespace Step

/-- The native call that the next step of a frame makes, if it makes one. -/
def hostCallOf
    (tree : Tree) (frame : Frame) (incoming : Option Completion) :
    Step (Option HostCall) := do
  match frame.node with
  | .expression id _ =>
      let node ← part (tree.expr? id)
      match node.kind, frame.state with
      | .nativeCall native arguments, _ =>
          match ← collect frame arguments incoming with
          | (_, some _) => pure none
          | (frame, none) =>
              let types ← arguments.mapM (typeOf tree)
              pure (some ⟨native, none, frame.values, types⟩)
      | .methodCall _ _ (.native native) arguments, 1 =>
          match ← collect frame arguments incoming with
          | (_, some _) => pure none
          | (frame, none) =>
              let this ← receiver frame.values.head?
              let types ← arguments.mapM (typeOf tree)
              pure (some ⟨native, some this, frame.values.drop 1, types⟩)
      | .new _ (some (.native native)) arguments, 1 =>
          settle incoming
          let last ← require .notRunning frame.values.getLast?
          let this ← receiver (some last)
          let types ← arguments.mapM (typeOf tree)
          pure (some ⟨native, some this, frame.values.dropLast, types⟩)
      | _, _ => pure none
  | _ => pure none

end Step

/-- The native call that a step of a frame makes over a memory, if it makes one. -/
def Frame.hostCall?
    (setting : Setting) (frame : Frame) (incoming : Option Completion) (memory : Memory) :
    Option HostCall :=
  match ((Step.hostCallOf setting.tree frame incoming).run.run memory).1 with
  | .ok call => call
  | .error _ => none

namespace Machine

/-- The native call of the next turn, as a list of at most one call. -/
def hostCalls (setting : Setting) (machine : Machine) : List HostCall :=
  match machine.frames with
  | [] => []
  | frame :: _ => (frame.hostCall? setting machine.incoming machine.memory).toList

/-- The native calls in order and the number of counted steps of a slice. -/
def traceFor (setting : Setting) :
    Nat → Option Nat → Machine → List HostCall × Nat
  | 0, _, _ => ([], 0)
  | fuel + 1, budget, machine =>
      let calls := machine.hostCalls setting
      match machine.advance setting with
      | .moved machine =>
          let (later, counted) := traceFor setting fuel budget machine
          (calls ++ later, counted)
      | .ended _ => (calls, 0)
      | .counted machine =>
          if machine.host.stopRequested then (calls, 1)
          else
            match budget with
            | some (left + 2) =>
                let (later, counted) := traceFor setting fuel (some (left + 1)) machine
                (calls ++ later, counted + 1)
            | some _ => (calls, 1)
            | none =>
                let (later, counted) := traceFor setting fuel none machine
                (calls ++ later, counted + 1)

/-- The native calls in order and the number of counted steps of one call of `run`. -/
def trace (setting : Setting) (fuel : Nat) (budget : Option Nat) (machine : Machine) :
    List HostCall × Nat :=
  match machine.outcome with
  | .running =>
      if machine.host.stopRequested || budget == some 0 then ([], 0)
      else traceFor setting fuel budget machine
  | _ => ([], 0)

end Machine

/-- How a slice ended, and all that it has shown. -/
structure SliceResult where
  status : RunStatus
  machine : Machine
  calls : List HostCall
  counted : Nat
  deriving Repr, DecidableEq, Inhabited

namespace SliceResult

/-- A result behind the calls and steps of what ran before it. -/
def after (earlier later : SliceResult) : SliceResult :=
  { later with
    calls := earlier.calls ++ later.calls
    counted := earlier.counted + later.counted }

end SliceResult

namespace Machine

/-- Some amount of fuel takes one call of `run` to its end with a result. -/
def RunsTo
    (setting : Setting) (budget : Option Nat) (machine : Machine) (result : SliceResult) :
    Prop :=
  result.status ≠ .outOfFuel ∧
    ∃ fuel,
      machine.run setting fuel budget = (result.status, result.machine) ∧
      machine.trace setting fuel budget = (result.calls, result.counted)

/-- Calls of `run` with the given budgets, one behind the other, end with a result. -/
inductive RunsAll (setting : Setting) : List Nat → Machine → SliceResult → Prop where
  | last
      {budget : Nat}
      {machine : Machine}
      {result : SliceResult} :
      machine.RunsTo setting (some budget) result →
      RunsAll setting [budget] machine result
  | more
      {budget : Nat}
      {budgets : List Nat}
      {machine : Machine}
      {first rest : SliceResult} :
      machine.RunsTo setting (some budget) first →
      RunsAll setting budgets first.machine rest →
      RunsAll setting (budget :: budgets) machine (first.after rest)

end Machine

end BotScript
