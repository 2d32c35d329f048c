import BotScript.Proofs.Trace
import BotScript.Proofs.Turn

namespace BotScript

open Machine

/-!
# Slicing a run

A slice is described by a derivation with one rule for each turn, in which no
fuel occurs.  Derivations of consecutive slices compose, and the derivation of
a longer slice splits where a shorter one pauses.  Both facts transfer to
`Machine.run`, so that the places at which a run pauses leave no mark on it.
-/

variable {setting : Setting}

/-- How a slice with a positive or without a budget goes on, turn by turn. -/
inductive Slice (setting : Setting) : Option Nat → Machine → SliceResult → Prop where
  | ended
      {budget : Option Nat}
      {machine last : Machine} :
      machine.advance setting = .ended last →
      Slice setting budget machine
        ⟨last.endStatus, last, machine.hostCalls setting, 0⟩
  | moved
      {budget : Option Nat}
      {machine next : Machine}
      {rest : SliceResult} :
      machine.advance setting = .moved next →
      Slice setting budget next rest →
      Slice setting budget machine
        ⟨rest.status, rest.machine, machine.hostCalls setting ++ rest.calls, rest.counted⟩
  | stopped
      {budget : Option Nat}
      {machine next : Machine} :
      machine.advance setting = .counted next →
      next.host.stopRequested = true →
      Slice setting budget machine
        ⟨.failed, next.abort setting, machine.hostCalls setting, 1⟩
  | paused
      {machine next : Machine} :
      machine.advance setting = .counted next →
      next.host.stopRequested = false →
      Slice setting (some 1) machine
        ⟨.paused, next, machine.hostCalls setting, 1⟩
  | counted
      (left : Option Nat)
      {machine next : Machine}
      {rest : SliceResult} :
      machine.advance setting = .counted next →
      next.host.stopRequested = false →
      left ≠ some 0 →
      Slice setting left next rest →
      Slice setting (left.map (· + 1)) machine
        ⟨rest.status, rest.machine, machine.hostCalls setting ++ rest.calls,
          rest.counted + 1⟩

namespace Slice

/-- A slice that has enough fuel follows a derivation. -/
theorem of_runFor
    {fuel : Nat}
    {budget : Option Nat}
    {machine last : Machine}
    {status : RunStatus}
    {calls : List HostCall}
    {counted : Nat}
    (positive : budget ≠ some 0)
    (runs : machine.runFor setting fuel budget = (status, last))
    (traced : machine.traceFor setting fuel budget = (calls, counted))
    (ended : status ≠ .outOfFuel) :
    Slice setting budget machine ⟨status, last, calls, counted⟩ := by
  induction fuel generalizing budget machine calls counted with
  | zero =>
      simp only [runFor, Prod.mk.injEq] at runs
      exact (ended runs.1.symm).elim
  | succ fuel inductionHypothesis =>
      rw [runFor] at runs
      rw [traceFor] at traced
      cases turn : machine.advance setting with
      | moved next =>
          simp only [turn] at runs traced
          simp only [Prod.mk.injEq] at traced
          obtain ⟨rfl, rfl⟩ := traced
          exact .moved turn (inductionHypothesis positive runs rfl)
      | ended last =>
          simp only [turn, Prod.mk.injEq] at runs traced
          obtain ⟨rfl, rfl⟩ := runs
          obtain ⟨rfl, rfl⟩ := traced
          exact .ended turn
      | counted next =>
          simp only [turn] at runs traced
          cases stop : next.host.stopRequested with
          | true =>
              simp only [stop, ↓reduceIte, Prod.mk.injEq] at runs traced
              obtain ⟨rfl, rfl⟩ := runs
              obtain ⟨rfl, rfl⟩ := traced
              exact .stopped turn stop
          | false =>
              simp only [stop, Bool.false_eq_true, ↓reduceIte] at runs traced
              cases budget with
              | none =>
                  simp only [Prod.mk.injEq] at runs traced
                  obtain ⟨rfl, rfl⟩ := traced
                  exact .counted none turn stop (by simp)
                    (inductionHypothesis (by simp) runs rfl)
              | some steps =>
                  rcases steps with - | - | left
                  · exact (positive rfl).elim
                  · simp only [Prod.mk.injEq] at runs traced
                    obtain ⟨rfl, rfl⟩ := runs
                    obtain ⟨rfl, rfl⟩ := traced
                    exact .paused turn stop
                  · simp only [Prod.mk.injEq] at runs traced
                    obtain ⟨rfl, rfl⟩ := traced
                    exact .counted (some (left + 1)) turn stop (by simp)
                      (inductionHypothesis (by simp) runs rfl)

/-- Every derivation is followed by all slices with enough fuel. -/
theorem runFor
    {budget : Option Nat}
    {machine : Machine}
    {result : SliceResult}
    (slice : Slice setting budget machine result) :
    ∃ least, ∀ fuel, least ≤ fuel →
      machine.runFor setting fuel budget = (result.status, result.machine) ∧
      machine.traceFor setting fuel budget = (result.calls, result.counted) := by
  induction slice with
  | ended turn =>
      refine ⟨1, fun fuel enough => ?_⟩
      obtain ⟨fuel, rfl⟩ := Nat.exists_eq_add_of_le' enough
      simp [Machine.runFor, traceFor, turn]
  | moved turn _ inductionHypothesis =>
      obtain ⟨least, follows⟩ := inductionHypothesis
      refine ⟨least + 1, fun fuel enough => ?_⟩
      obtain ⟨fuel, rfl⟩ := Nat.exists_eq_add_of_le' (Nat.le_of_add_left_le enough)
      have rest := follows fuel (by omega)
      simp [Machine.runFor, traceFor, turn, rest]
  | stopped turn stop =>
      refine ⟨1, fun fuel enough => ?_⟩
      obtain ⟨fuel, rfl⟩ := Nat.exists_eq_add_of_le' enough
      simp [Machine.runFor, traceFor, turn, stop]
  | paused turn stop =>
      refine ⟨1, fun fuel enough => ?_⟩
      obtain ⟨fuel, rfl⟩ := Nat.exists_eq_add_of_le' enough
      simp [Machine.runFor, traceFor, turn, stop]
  | counted left turn stop positive _ inductionHypothesis =>
      obtain ⟨least, follows⟩ := inductionHypothesis
      refine ⟨least + 1, fun fuel enough => ?_⟩
      obtain ⟨fuel, rfl⟩ := Nat.exists_eq_add_of_le' (Nat.le_of_add_left_le enough)
      have rest := follows fuel (by omega)
      match left, positive with
      | none, _ =>
          simp [Machine.runFor, traceFor, turn, stop, rest]
      | some (left + 1), _ =>
          simp [Machine.runFor, traceFor, turn, stop, rest]

/-- A slice has one result only. -/
theorem unique
    {budget : Option Nat}
    {machine : Machine}
    {first second : SliceResult}
    (toFirst : Slice setting budget machine first)
    (toSecond : Slice setting budget machine second) :
    first = second := by
  obtain ⟨least, follows⟩ := toFirst.runFor
  obtain ⟨other, alsoFollows⟩ := toSecond.runFor
  obtain ⟨run, traced⟩ := follows (max least other) (Nat.le_max_left ..)
  obtain ⟨run', traced'⟩ := alsoFollows (max least other) (Nat.le_max_right ..)
  obtain ⟨status, last, calls, counted⟩ := first
  obtain ⟨status', last', calls', counted'⟩ := second
  simp only at run run' traced traced'
  simp_all

/-- A slice with a budget counts no more steps than that, and pauses with none left. -/
theorem counted_le
    {budget : Option Nat}
    {machine : Machine}
    {result : SliceResult}
    (slice : Slice setting budget machine result)
    {bound : Nat}
    (bounded : budget = some bound)
    (positive : bound ≠ 0) :
    result.counted ≤ bound ∧ (result.status = .paused → result.counted = bound) := by
  induction slice generalizing bound with
  | @ended _ _ last turn =>
      exact ⟨Nat.zero_le _, fun paused => absurd paused last.endStatus_terminal.2⟩
  | moved _ _ inductionHypothesis =>
      exact inductionHypothesis bounded positive
  | stopped =>
      exact ⟨Nat.pos_of_ne_zero positive, by simp⟩
  | paused =>
      simp only [Option.some.injEq] at bounded
      simp [← bounded]
  | counted left _ _ unspent _ inductionHypothesis =>
      obtain ⟨rest, rfl, rfl⟩ := Option.map_eq_some_iff.mp bounded
      have fewer := inductionHypothesis rfl (by simpa using unspent)
      exact ⟨Nat.succ_le_succ fewer.1, fun paused => congrArg (· + 1) (fewer.2 paused)⟩

/-- Without a budget a slice never pauses. -/
theorem status_of_unbounded
    {machine : Machine}
    {result : SliceResult}
    (slice : Slice setting none machine result) :
    result.status ≠ .paused := by
  generalize unbounded : (none : Option Nat) = budget at slice
  induction slice with
  | @ended _ _ last =>
      exact last.endStatus_terminal.2
  | moved _ _ inductionHypothesis =>
      exact inductionHypothesis unbounded
  | stopped =>
      simp
  | paused =>
      simp at unbounded
  | counted _ _ _ _ _ inductionHypothesis =>
      exact inductionHypothesis (Option.map_eq_none_iff.mp unbounded.symm).symm

/-- The counter of a machine goes up by the steps a slice counts. -/
theorem steps_eq
    {budget : Option Nat}
    {machine : Machine}
    {result : SliceResult}
    (slice : Slice setting budget machine result) :
    result.machine.steps = machine.steps + UInt64.ofNat result.counted := by
  induction slice with
  | ended turn =>
      simpa using (advance_ended turn).1
  | moved turn _ inductionHypothesis =>
      rw [inductionHypothesis, advance_moved_steps turn]
  | stopped turn =>
      simpa [abort] using advance_counted_steps turn
  | paused turn =>
      simpa using advance_counted_steps turn
  | counted _ turn _ _ _ inductionHypothesis =>
      rw [inductionHypothesis, advance_counted_steps turn, UInt64.ofNat_add,
        UInt64.add_assoc, UInt64.add_comm 1]
      rfl

/-- A slice that pauses leaves a running machine that nobody has asked to stop. -/
theorem running_of_paused
    {budget : Option Nat}
    {machine : Machine}
    {result : SliceResult}
    (slice : Slice setting budget machine result)
    (paused : result.status = .paused) :
    result.machine.outcome = machine.outcome ∧
      result.machine.host.stopRequested = false := by
  induction slice with
  | @ended _ _ last =>
      exact absurd paused last.endStatus_terminal.2
  | moved turn _ inductionHypothesis =>
      have rest := inductionHypothesis paused
      exact ⟨rest.1.trans (advance_outcome (.inl turn)), rest.2⟩
  | stopped =>
      simp at paused
  | paused turn stop =>
      exact ⟨advance_outcome (.inr turn), stop⟩
  | counted _ turn _ _ _ inductionHypothesis =>
      have rest := inductionHypothesis paused
      exact ⟨rest.1.trans (advance_outcome (.inr turn)), rest.2⟩

/-- A slice that does not pause leaves a machine whose outcome gives its status. -/
theorem ended_of_not_paused
    {budget : Option Nat}
    {machine : Machine}
    {result : SliceResult}
    (slice : Slice setting budget machine result)
    (unpaused : result.status ≠ .paused) :
    result.machine.outcome ≠ .running ∧ result.machine.endStatus = result.status := by
  induction slice with
  | ended turn =>
      exact ⟨(advance_ended turn).2, rfl⟩
  | moved _ _ inductionHypothesis =>
      exact inductionHypothesis unpaused
  | stopped =>
      exact ⟨by simp [abort], rfl⟩
  | paused =>
      simp at unpaused
  | counted _ _ _ _ _ inductionHypothesis =>
      exact inductionHypothesis unpaused

/-- A slice that starts where another one has paused continues its derivation. -/
theorem append
    {budget more : Option Nat}
    {machine : Machine}
    {first second : SliceResult}
    (slice : Slice setting budget machine first)
    {bound : Nat}
    (bounded : budget = some bound)
    (paused : first.status = .paused)
    (rest : Slice setting more first.machine second)
    (unspent : more ≠ some 0) :
    Slice setting (more.map (bound + ·)) machine (first.after second) := by
  induction slice generalizing bound with
  | @ended _ _ last =>
      exact absurd paused last.endStatus_terminal.2
  | moved turn _ inductionHypothesis =>
      simpa [SliceResult.after, List.append_assoc] using
        Slice.moved turn (inductionHypothesis bounded paused rest)
  | stopped =>
      simp at paused
  | paused turn stop =>
      simp only [Option.some.injEq] at bounded
      subst bounded
      simpa [SliceResult.after, Nat.add_comm] using
        Slice.counted _ turn stop unspent rest
  | counted left turn stop leftUnspent _ inductionHypothesis =>
      obtain ⟨fewer, rfl, rfl⟩ := Option.map_eq_some_iff.mp bounded
      have laterUnspent : more.map (fewer + ·) ≠ some 0 := by
        cases more with
        | none => simp
        | some count => simp only [ne_eq, Option.some.injEq] at unspent; simp; omega
      have whole :=
        Slice.counted _ turn stop laterUnspent (inductionHypothesis rfl paused rest)
      simpa [SliceResult.after, Option.map_map, Function.comp_def, List.append_assoc,
        Nat.add_assoc, Nat.add_comm, Nat.add_left_comm] using whole

/-- A slice that ends before its budget is used up ends the same way with a larger one. -/
theorem widen
    {budget wider : Option Nat}
    {machine : Machine}
    {result : SliceResult}
    (slice : Slice setting budget machine result)
    (unpaused : result.status ≠ .paused)
    (larger : ∀ bound, wider = some bound → ∃ least, budget = some least ∧ least ≤ bound) :
    Slice setting wider machine result := by
  induction slice generalizing wider with
  | ended turn =>
      exact .ended turn
  | moved turn _ inductionHypothesis =>
      exact .moved turn (inductionHypothesis unpaused larger)
  | stopped turn stop =>
      exact .stopped turn stop
  | paused =>
      simp at unpaused
  | counted left turn stop unspent _ inductionHypothesis =>
      match wider with
      | none =>
          exact .counted none turn stop (by simp)
            (inductionHypothesis unpaused (by simp))
      | some bound =>
          obtain ⟨least, leftBound, within⟩ := larger bound rfl
          obtain ⟨fewer, rfl, rfl⟩ := Option.map_eq_some_iff.mp leftBound
          obtain ⟨bound, rfl⟩ := Nat.exists_eq_add_of_le' (Nat.le_of_add_left_le within)
          have positive : fewer ≠ 0 := by simpa using unspent
          refine .counted (some bound) turn stop (by simp; omega)
            (inductionHypothesis unpaused ?_)
          intro other same
          simp only [Option.some.injEq] at same
          exact ⟨fewer, rfl, by omega⟩

/-- The derivation of a slice splits at every smaller budget. -/
theorem split
    {budget : Option Nat}
    {machine : Machine}
    {result : SliceResult}
    (slice : Slice setting budget machine result)
    {first second : Nat}
    (bounded : budget = some (first + second))
    (firstPositive : first ≠ 0)
    (secondPositive : second ≠ 0) :
    (Slice setting (some first) machine result ∧ result.status ≠ .paused) ∨
      ∃ early late,
        Slice setting (some first) machine early ∧
        early.status = .paused ∧
        Slice setting (some second) early.machine late ∧
        result = early.after late := by
  induction slice generalizing first with
  | @ended _ _ last turn =>
      exact .inl ⟨.ended turn, last.endStatus_terminal.2⟩
  | moved turn _ inductionHypothesis =>
      rcases inductionHypothesis bounded firstPositive with
          ⟨whole, unpaused⟩ | ⟨early, late, earlySlice, paused, lateSlice, rfl⟩
      · exact .inl ⟨.moved turn whole, unpaused⟩
      · exact .inr ⟨_, late, .moved turn earlySlice, paused, lateSlice,
          by simp [SliceResult.after, List.append_assoc]⟩
  | stopped turn stop =>
      exact .inl ⟨.stopped turn stop, by simp⟩
  | paused =>
      simp only [Option.some.injEq] at bounded
      omega
  | @counted left _ _ rest turn stop _ restSlice inductionHypothesis =>
      obtain ⟨fewer, rfl, total⟩ := Option.map_eq_some_iff.mp bounded
      match first with
      | 0 =>
          exact absurd rfl firstPositive
      | 1 =>
          have same : fewer = second := by omega
          subst same
          exact .inr ⟨_, rest, .paused turn stop, rfl, restSlice,
            by simp [SliceResult.after, Nat.add_comm]⟩
      | first + 2 =>
          rcases inductionHypothesis (by simp; omega) (Nat.succ_ne_zero first) with
              ⟨whole, unpaused⟩ | ⟨early, late, earlySlice, paused, lateSlice, rfl⟩
          · exact .inl ⟨.counted (some (first + 1)) turn stop (by simp) whole, unpaused⟩
          · exact .inr ⟨_, late,
              .counted (some (first + 1)) turn stop (by simp) earlySlice,
              paused, lateSlice,
              by simp [SliceResult.after, List.append_assoc, Nat.add_right_comm]⟩

end Slice

namespace Machine

/-- The result of a call of `run` that takes no turn. -/
def idleResult (status : RunStatus) (machine : Machine) : SliceResult :=
  ⟨status, machine, [], 0⟩

/-- A call of `run` either takes no turn, for one of three reasons, or is a slice. -/
theorem runsTo_iff
    {budget : Option Nat}
    {machine : Machine}
    {result : SliceResult} :
    machine.RunsTo setting budget result ↔
      (machine.outcome ≠ .running ∧ result = idleResult machine.endStatus machine) ∨
      (machine.outcome = .running ∧ machine.host.stopRequested = true ∧
        result = idleResult .failed (machine.abort setting)) ∨
      (machine.outcome = .running ∧ machine.host.stopRequested = false ∧
        budget = some 0 ∧ result = idleResult .paused machine) ∨
      (machine.outcome = .running ∧ machine.host.stopRequested = false ∧
        budget ≠ some 0 ∧ Slice setting budget machine result) := by
  obtain ⟨status, last, calls, counted⟩ := result
  simp only [RunsTo, run, trace, idleResult, SliceResult.mk.injEq]
  by_cases running : machine.outcome = .running
  · cases stop : machine.host.stopRequested with
    | true =>
        simp only [running, Bool.true_or, ↓reduceIte, Prod.mk.injEq, exists_const]
        constructor
        · rintro ⟨-, ⟨rfl, rfl⟩, rfl, rfl⟩
          simp
        · simp +contextual
    | false =>
        by_cases spent : budget = some 0
        · simp only [running, spent, beq_self_eq_true, Bool.or_true, ↓reduceIte,
            Bool.false_eq_true, Prod.mk.injEq, exists_const]
          constructor
          · rintro ⟨-, ⟨rfl, rfl⟩, rfl, rfl⟩
            simp
          · simp +contextual
        · simp only [running, beq_iff_eq, spent, Bool.false_eq_true, ↓reduceIte,
            Bool.false_or]
          constructor
          · rintro ⟨ended, fuel, runs, traced⟩
            exact .inr (.inr (.inr ⟨trivial, trivial, spent,
              Slice.of_runFor spent runs (by simpa using traced) ended⟩))
          · intro cases
            have slice : Slice setting budget machine ⟨status, last, calls, counted⟩ := by
              simpa [spent] using cases
            obtain ⟨least, follows⟩ := slice.runFor
            refine ⟨?_, least, (follows least (Nat.le_refl _)).1,
              by simpa using (follows least (Nat.le_refl _)).2⟩
            by_cases paused : status = .paused
            · simp [paused]
            · have ending : last.endStatus = status :=
                (slice.ended_of_not_paused paused).2
              rw [← ending]
              exact last.endStatus_terminal.1
  · have terminal := machine.endStatus_terminal.1
    cases shape : machine.outcome with
    | running =>
        exact absurd shape running
    | _ =>
        simp only [reduceCtorEq, not_false_eq_true, Prod.mk.injEq, exists_const, ne_eq,
          false_and, or_false, true_and]
        constructor
        · rintro ⟨-, ⟨rfl, rfl⟩, rfl, rfl⟩
          simp
        · rintro ⟨rfl, rfl, rfl, rfl⟩
          exact ⟨terminal, ⟨rfl, rfl⟩, rfl, rfl⟩

/-- A machine that has ended answers every call of `run` in the same way. -/
theorem runsTo_ended
    {budget : Option Nat}
    {machine : Machine}
    {result : SliceResult}
    (ended : machine.outcome ≠ .running) :
    machine.RunsTo setting budget result ↔
      result = idleResult machine.endStatus machine := by
  simp [runsTo_iff, ended]

/-- A running machine that nobody has asked to stop takes the turns of its slice. -/
theorem runsTo_slice
    {budget : Option Nat}
    {machine : Machine}
    {result : SliceResult}
    (running : machine.outcome = .running)
    (unstopped : machine.host.stopRequested = false)
    (unspent : budget ≠ some 0) :
    machine.RunsTo setting budget result ↔ Slice setting budget machine result := by
  simp [runsTo_iff, running, unstopped, unspent]

/-- A running machine that nobody has asked to stop pauses at once without a budget. -/
theorem runsTo_zero
    {machine : Machine}
    {result : SliceResult}
    (running : machine.outcome = .running)
    (unstopped : machine.host.stopRequested = false) :
    machine.RunsTo setting (some 0) result ↔ result = idleResult .paused machine := by
  simp [runsTo_iff, running, unstopped]

namespace RunsTo

variable {machine : Machine} {budget more : Option Nat} {first second result : SliceResult}

/-- A call of `run` has one result only. -/
theorem unique
    (toFirst : machine.RunsTo setting budget first)
    (toSecond : machine.RunsTo setting budget second) :
    first = second := by
  rw [runsTo_iff] at toFirst toSecond
  rcases toFirst with
      ⟨ended, rfl⟩ | ⟨running, stop, rfl⟩ | ⟨running, stop, spent, rfl⟩ |
        ⟨running, stop, unspent, slice⟩
  · exact Eq.symm (by simpa [ended] using toSecond)
  · exact Eq.symm (by simpa [running, stop] using toSecond)
  · exact Eq.symm (by simpa [running, stop, spent] using toSecond)
  · exact slice.unique (by simpa [running, stop, unspent] using toSecond)

/-- After a pause the machine runs on, and nobody has asked it to stop. -/
theorem running_of_paused
    (runs : machine.RunsTo setting budget result)
    (paused : result.status = .paused) :
    result.machine.outcome = .running ∧ result.machine.host.stopRequested = false := by
  rw [runsTo_iff] at runs
  rcases runs with
      ⟨_, rfl⟩ | ⟨_, _, rfl⟩ | ⟨running, stop, _, rfl⟩ | ⟨running, _, _, slice⟩
  · exact absurd paused machine.endStatus_terminal.2
  · simp [idleResult] at paused
  · exact ⟨running, stop⟩
  · have rest := slice.running_of_paused paused
    exact ⟨rest.1.trans running, rest.2⟩

/-- A call of `run` that does not pause leaves a machine that has ended. -/
theorem ended_of_not_paused
    (runs : machine.RunsTo setting budget result)
    (unpaused : result.status ≠ .paused) :
    result.machine.outcome ≠ .running ∧ result.machine.endStatus = result.status := by
  rw [runsTo_iff] at runs
  rcases runs with
      ⟨ended, rfl⟩ | ⟨_, _, rfl⟩ | ⟨_, _, _, rfl⟩ | ⟨_, _, _, slice⟩
  · exact ⟨ended, rfl⟩
  · exact ⟨by simp [idleResult, abort], rfl⟩
  · simp [idleResult] at unpaused
  · exact slice.ended_of_not_paused unpaused

/-- A call of `run` that does not pause ends the same way with any larger budget. -/
theorem widen
    (runs : machine.RunsTo setting budget result)
    (unpaused : result.status ≠ .paused)
    {wider : Option Nat}
    (larger : ∀ bound, wider = some bound → ∃ least, budget = some least ∧ least ≤ bound) :
    machine.RunsTo setting wider result := by
  rw [runsTo_iff] at runs ⊢
  rcases runs with
      ended | stopped | ⟨_, _, _, rfl⟩ | ⟨running, unstopped, unspent, slice⟩
  · exact .inl ended
  · exact .inr (.inl stopped)
  · simp [idleResult] at unpaused
  · refine .inr (.inr (.inr ⟨running, unstopped, ?_, slice.widen unpaused larger⟩))
    rintro rfl
    obtain ⟨least, same, within⟩ := larger 0 rfl
    exact unspent (same.trans (congrArg some (Nat.le_zero.mp within)))

/-- Two consecutive calls of `run` do what one call with the added budgets does. -/
theorem append
    {bound : Nat}
    (runs : machine.RunsTo setting (some bound) first)
    (later : first.machine.RunsTo setting more second) :
    machine.RunsTo setting (more.map (bound + ·)) (first.after second) := by
  by_cases paused : first.status = .paused
  · obtain ⟨running, unstopped⟩ := runs.running_of_paused paused
    by_cases spent : more = some 0
    · subst spent
      rw [runsTo_zero running unstopped] at later
      subst later
      have same : first.after (idleResult .paused first.machine) = first := by
        simp [SliceResult.after, idleResult, ← paused]
      simpa [same] using runs
    · rw [runsTo_slice running unstopped spent] at later
      rw [runsTo_iff] at runs ⊢
      rcases runs with
          ⟨_, rfl⟩ | ⟨_, _, rfl⟩ | ⟨running, stop, none, rfl⟩ |
            ⟨running, stop, unspent, slice⟩
      · exact absurd paused machine.endStatus_terminal.2
      · simp [idleResult] at paused
      · simp only [Option.some.injEq] at none
        subst none
        refine .inr (.inr (.inr ⟨running, stop, by simpa using spent, ?_⟩))
        simpa [SliceResult.after, idleResult] using later
      · refine .inr (.inr (.inr ⟨running, stop, ?_, slice.append rfl paused later spent⟩))
        cases more with
        | none => simp
        | some count =>
            simp only [ne_eq, Option.some.injEq] at spent unspent
            simp only [Option.map_some, ne_eq, Option.some.injEq]
            omega
  · obtain ⟨ended, status⟩ := runs.ended_of_not_paused paused
    rw [runsTo_ended ended] at later
    subst later
    have same : first.after (idleResult first.machine.endStatus first.machine) = first := by
      simp [SliceResult.after, idleResult, status]
    rw [same]
    refine runs.widen paused ?_
    intro wider same
    obtain ⟨count, _, rfl⟩ := Option.map_eq_some_iff.mp same
    exact ⟨bound, rfl, Nat.le_add_right ..⟩

/-- A call of `run` with a sum of budgets is a call with each of them in turn. -/
theorem split
    {bound rest : Nat}
    (runs : machine.RunsTo setting (some (bound + rest)) result) :
    ∃ first second,
      machine.RunsTo setting (some bound) first ∧
      first.machine.RunsTo setting (some rest) second ∧
      result = first.after second := by
  by_cases active : machine.outcome = .running ∧ machine.host.stopRequested = false
  · obtain ⟨running, unstopped⟩ := active
    have start : machine.RunsTo setting (some 0) _ := (runsTo_zero running unstopped).mpr rfl
    match bound, rest with
    | 0, rest =>
        rw [Nat.zero_add] at runs
        exact ⟨_, result, start, runs, by simp [SliceResult.after, idleResult]⟩
    | bound + 1, 0 =>
        by_cases paused : result.status = .paused
        · obtain ⟨stillRunning, stillUnstopped⟩ := runs.running_of_paused paused
          exact ⟨result, _, runs, (runsTo_zero stillRunning stillUnstopped).mpr rfl,
            by simp [SliceResult.after, idleResult, ← paused]⟩
        · obtain ⟨ended, status⟩ := runs.ended_of_not_paused paused
          exact ⟨result, _, runs, (runsTo_ended ended).mpr rfl,
            by simp [SliceResult.after, idleResult, status]⟩
    | bound + 1, rest + 1 =>
        rw [runsTo_slice running unstopped (by simp)] at runs
        rcases runs.split rfl (by simp) (by simp) with
            ⟨whole, unpaused⟩ | ⟨early, late, earlySlice, paused, lateSlice, rfl⟩
        · have first := (runsTo_slice running unstopped (by simp)).mpr whole
          obtain ⟨ended, status⟩ := whole.ended_of_not_paused unpaused
          exact ⟨result, _, first, (runsTo_ended ended).mpr rfl,
            by simp [SliceResult.after, idleResult, status]⟩
        · have first := (runsTo_slice running unstopped (by simp)).mpr earlySlice
          obtain ⟨stillRunning, stillUnstopped⟩ := first.running_of_paused paused
          exact ⟨early, late, first,
            (runsTo_slice stillRunning stillUnstopped (by simp)).mpr lateSlice, rfl⟩
  · -- Nothing runs: the first call ends the matter whatever its budget.
    have first : machine.RunsTo setting (some bound) result := by
      rw [runsTo_iff] at runs ⊢
      rcases runs with ended | stopped | ⟨running, stop, _⟩ | ⟨running, stop, _⟩
      · exact .inl ended
      · exact .inr (.inl stopped)
      · exact absurd ⟨running, stop⟩ active
      · exact absurd ⟨running, stop⟩ active
    have unpaused : result.status ≠ .paused := by
      rw [runsTo_iff] at runs
      rcases runs with ⟨_, rfl⟩ | ⟨_, _, rfl⟩ | ⟨running, stop, _⟩ | ⟨running, stop, _⟩
      · exact machine.endStatus_terminal.2
      · simp [idleResult]
      · exact absurd ⟨running, stop⟩ active
      · exact absurd ⟨running, stop⟩ active
    obtain ⟨ended, status⟩ := first.ended_of_not_paused unpaused
    exact ⟨result, _, first, (runsTo_ended ended).mpr rfl,
      by simp [SliceResult.after, idleResult, status]⟩

/-- A call of `run` keeps within its budget, uses it up when it pauses, and adds what it counts. -/
theorem counted_le
    (runs : machine.RunsTo setting budget result) :
    (∀ bound, budget = some bound →
      result.counted ≤ bound ∧ (result.status = .paused → result.counted = bound)) ∧
    result.machine.steps = machine.steps + UInt64.ofNat result.counted := by
  rw [runsTo_iff] at runs
  rcases runs with
      ⟨_, rfl⟩ | ⟨_, _, rfl⟩ | ⟨_, _, spent, rfl⟩ | ⟨_, _, unspent, slice⟩
  · refine ⟨fun bound _ => ⟨Nat.zero_le _, fun paused => ?_⟩, by simp [idleResult]⟩
    exact absurd paused machine.endStatus_terminal.2
  · exact ⟨fun bound _ => ⟨Nat.zero_le _, by simp [idleResult]⟩, by simp [idleResult, abort]⟩
  · refine ⟨fun bound same => ?_, by simp [idleResult]⟩
    simp only [spent, Option.some.injEq] at same
    simp [idleResult, same]
  · refine ⟨fun bound same => slice.counted_le same ?_, slice.steps_eq⟩
    rintro rfl
    exact unspent same

end RunsTo

/-- Slices that reach an end do together what one call without a budget does. -/
theorem RunsAll.unbounded
    {budgets : List Nat}
    {machine : Machine}
    {result : SliceResult}
    (runs : RunsAll setting budgets machine result)
    (unpaused : result.status ≠ .paused) :
    machine.RunsTo setting none result := by
  induction runs with
  | last runs =>
      exact runs.widen unpaused (by simp)
  | more runs _ inductionHypothesis =>
      exact runs.append (inductionHypothesis unpaused)

/--
The places at which a run pauses leave no mark on it.  A call of `run` has one
result, with its complete final machine and all native calls; consecutive calls
have the result of one call with the sum of the budgets, and split it; a call
counts no more steps than its budget, all of them if it pauses; and slices that
reach an end have the result of one call without a budget.
-/
theorem run_slicing
    (setting : Setting)
    (machine : Machine) :
    (∀ budget first second,
      machine.RunsTo setting budget first →
      machine.RunsTo setting budget second →
      first = second) ∧
    (∀ bound rest result,
      machine.RunsTo setting (some (bound + rest)) result ↔
        ∃ first second,
          machine.RunsTo setting (some bound) first ∧
          first.machine.RunsTo setting (some rest) second ∧
          result = first.after second) ∧
    (∀ bound result,
      machine.RunsTo setting (some bound) result →
      result.counted ≤ bound ∧
      (result.status = .paused → result.counted = bound) ∧
      result.machine.steps = machine.steps + UInt64.ofNat result.counted) ∧
    (∀ budgets result,
      RunsAll setting budgets machine result →
      result.status ≠ .paused →
      machine.RunsTo setting none result) := by
  refine ⟨fun _ _ _ => RunsTo.unique, fun bound rest result => ⟨RunsTo.split, ?_⟩, ?_, ?_⟩
  · rintro ⟨first, second, runs, later, rfl⟩
    exact runs.append later
  · intro bound result runs
    obtain ⟨within, steps⟩ := runs.counted_le
    exact ⟨(within bound rfl).1, (within bound rfl).2, steps⟩
  · exact fun _ _ runs unpaused => runs.unbounded unpaused

/-- A program whose entry function has an empty body. -/
def idleSetting : Setting where
  tree :=
    { stmts := #[⟨.block [], Span.none⟩]
      functions := #[⟨"main", none, [], .void, {}, some ⟨0⟩, [], Span.none⟩] }
  registry := {}
  callDepth := 10

/-- The idle program at its start, on a host without files. -/
def idleMachine : Machine :=
  start idleSetting ⟨0⟩ { files := .inMemory default }

/-- What a call of `run` with enough fuel for the idle program leads to. -/
def idleRun (budget : Option Nat) (machine : Machine) : SliceResult :=
  let (status, last) := machine.run idleSetting 10 budget
  let (calls, counted) := machine.trace idleSetting 10 budget
  ⟨status, last, calls, counted⟩

/-- The idle program pauses after its only step, and its two slices make up its run. -/
theorem run_slicing_idle :
    let first := idleRun (some 1) idleMachine
    let second := idleRun (some 1) first.machine
    first.status = .paused ∧
      second.status = .finished ∧
      idleMachine.RunsTo idleSetting (some 2) (first.after second) ∧
      idleMachine.RunsTo idleSetting none (first.after second) := by
  intro first second
  have runs : idleMachine.RunsTo idleSetting (some 1) first :=
    ⟨by decide +kernel, 10, rfl, rfl⟩
  have later : first.machine.RunsTo idleSetting (some 1) second :=
    ⟨by decide +kernel, 10, rfl, rfl⟩
  obtain ⟨-, sums, -, unbounded⟩ := run_slicing idleSetting idleMachine
  exact ⟨by decide +kernel, by decide +kernel,
    (sums 1 1 _).mpr ⟨first, second, runs, later, rfl⟩,
    unbounded [1, 1] _ (.more runs (.last later)) (by decide +kernel)⟩

end Machine

end BotScript
