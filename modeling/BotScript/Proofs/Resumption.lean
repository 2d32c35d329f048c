import BotScript.Proofs.BuildingPrograms
import BotScript.Proofs.Compaction
import BotScript.Proofs.LockstepMachine
import BotScript.Proofs.SoundLibrary
import BotScript.Proofs.SpelledProgram

namespace BotScript

/-!
# Restored runs

A suspended machine that is saved and restored goes on as it would have.  Parts
that it can no longer reach are not saved.  They can make a difference only as
long as they keep each other in use, and with them a file that the machine can
still reach.
-/

/-!
## Suspended machines

Between two visits of a machine the host can change as it likes.  A visit that
pauses leaves a chain with a statement on top, which the program has as all of
its statements are closed.
-/

/-- One call of `run`: what the host did before it, and the bounds on the slice. -/
structure Visit where
  change : Host → Host
  fuel : Nat
  budget : Option Nat

/-- What both machines show, where the parts of the heap have been moved. -/
structure SliceResult.Embeds (shift : Relocation) (inner outer : SliceResult) : Prop where
  status : outer.status = inner.status
  machine : Machine.Embeds shift inner.machine outer.machine
  calls : outer.calls = inner.calls.map shift.hostCall
  counted : outer.counted = inner.counted

namespace Machine

/-- What a call of `run` shows, and the machine once unused files are closed. -/
def visit (setting : Setting) (visit : Visit) (machine : Machine) : SliceResult :=
  let ready := machine.withHost (visit.change machine.host)
  let (status, last) := ready.run setting visit.fuel visit.budget
  let (calls, counted) := ready.trace setting visit.fuel visit.budget
  ⟨status, last.closeUnused, calls, counted⟩

/-- What calls of `run` show one behind the other. -/
def visits (setting : Setting) : List Visit → Machine → List SliceResult
  | [], _ => []
  | first :: rest, machine =>
      let result := machine.visit setting first
      result :: visits setting rest result.machine

/-- A machine that has just been started, or whose visits have all been paused. -/
inductive Suspended (setting : Setting) : Machine → Prop where
  | started
      {entry : FuncId}
      (host : Host) :
      (setting.tree.function? entry).isSome →
      Suspended setting (start setting entry host)
  | paused
      {machine : Machine}
      (visit : Visit) :
      Suspended setting machine →
      (machine.visit setting visit).status = .paused →
      Suspended setting (machine.visit setting visit).machine

/-- A running machine between two steps: its innermost frame is the root or a statement. -/
structure Resting (machine : Machine) : Prop where
  running : machine.outcome = .running
  top : ∃ frame below, machine.frames = frame :: below ∧
    ((∃ entry, frame.node = .start entry) ∨ ∃ id, frame.node = .statement id)

/-! ## Machines at rest -/

section

variable {setting : Setting} {machine next : Machine}
  (natives : setting.registry.KeepsHeaps setting.tree)

include natives

/-- A turn that counts a step leaves a statement on top. -/
theorem Sound.resting_of_counted
    (sound : machine.Sound setting.tree)
    (running : machine.outcome = .running)
    (counted : machine.advance setting = .counted next) :
    next.Resting := by
  refine ⟨(advance_outcome (.inr counted)).trans running, ?_⟩
  have plays {memory : Memory} {frame : Frame} {below : List Frame}
      {incoming : Option Completion} {outcome : Outcome} {steps : UInt64}
      (sound : Machine.Sound setting.tree ⟨memory, frame :: below, incoming, outcome, steps⟩) :
      Step.Played setting.tree frame memory
        ((Step.ofFrame setting frame incoming).run.run memory) :=
    have top := (sound.chain (List.cons_ne_nil _ _)).top
    Step.Plays.ofFrame natives top.refs top.state sound.incoming memory sound.memory rfl
  obtain ⟨memory, frames, incoming, outcome, steps⟩ := machine
  cases frames with
  | nil => cases counted
  | cons frame below =>
      rw [advance_cons] at counted
      have played :
          Step.Played setting.tree frame
            (readyMemory setting ⟨memory, frame :: below, incoming, outcome, steps⟩ frame)
            ((Step.ofFrame setting frame incoming).run.run
              (readyMemory setting ⟨memory, frame :: below, incoming, outcome, steps⟩ frame)) := by
        unfold readyMemory
        split
        · exact plays sound.closeUnused
        · exact plays sound
      unfold Frame.play at counted
      revert counted played
      generalize (Step.ofFrame setting frame incoming).run.run _ = taken
      intro counted played
      cases played with
      | @ok move after _ _ fits =>
          cases move with
          | push => cases counted
          | complete => cases counted
          | tick stay =>
              cases counted
              obtain ⟨⟨node, -, -⟩, -, ⟨id, isStatement⟩, -⟩ := fits
              exact ⟨stay, below, rfl, .inr ⟨id, node.trans isStatement⟩⟩
      | @error interrupt =>
          cases interrupt with
          | propagate => cases counted
          | fault fault => cases fault <;> cases counted

/-- A slice that pauses leaves a machine at rest. -/
theorem Sound.resting_of_paused
    (sound : machine.Sound setting.tree)
    (running : machine.outcome = .running)
    {fuel : Nat}
    {budget : Option Nat}
    (paused : (machine.runFor setting fuel budget).1 = .paused) :
    (machine.runFor setting fuel budget).2.Resting := by
  induction fuel generalizing machine budget with
  | zero => cases paused
  | succ fuel inductionHypothesis =>
      have after := sound.advance natives
      unfold Machine.runFor at paused ⊢
      cases turn : machine.advance setting with
      | moved next =>
          rw [turn] at after paused
          exact inductionHypothesis after ((advance_outcome (.inl turn)).trans running) paused
      | ended last =>
          rw [turn] at paused
          exact absurd paused last.endStatus_terminal.2
      | counted next =>
          rw [turn] at after paused
          have rests := sound.resting_of_counted natives running turn
          dsimp only at paused ⊢
          split at paused
          · cases paused
          · next goesOn =>
              rw [if_neg goesOn]
              obtain _ | _ | _ | left := budget
              · exact inductionHypothesis after rests.running paused
              · exact rests
              · exact rests
              · exact inductionHypothesis after rests.running paused

/-- A visit leaves a sound machine sound. -/
theorem Sound.visit
    (sound : machine.Sound setting.tree)
    (visit : Visit) :
    (machine.visit setting visit).machine.Sound setting.tree :=
  ((sound.withHost (visit.change machine.host)).run natives visit.fuel visit.budget).closeUnused

/-- A visit that pauses leaves a machine at rest. -/
theorem Resting.visit
    (sound : machine.Sound setting.tree)
    (rests : machine.Resting)
    {visit : Visit}
    (paused : (machine.visit setting visit).status = .paused) :
    (machine.visit setting visit).machine.Resting := by
  have ready := sound.withHost (visit.change machine.host)
  have readyRunning : (machine.withHost (visit.change machine.host)).outcome = .running :=
    rests.running
  have ran :
      ((machine.withHost (visit.change machine.host)).run setting visit.fuel visit.budget).2.Resting := by
    unfold Machine.visit at paused
    dsimp only at paused
    unfold Machine.run at paused ⊢
    rw [readyRunning] at paused ⊢
    dsimp only at paused ⊢
    split at paused
    · cases paused
    · next goesOn =>
        rw [if_neg goesOn]
        split at paused
        · next spent =>
            rw [if_pos spent]
            exact ⟨rests.running, rests.top⟩
        · next unspent =>
            rw [if_neg unspent]
            exact ready.resting_of_paused natives readyRunning paused
  exact ⟨ran.running, ran.top⟩

/-- A suspended machine is sound and at rest. -/
theorem Suspended.sound
    (suspended : machine.Suspended setting) :
    machine.Sound setting.tree ∧ machine.Resting := by
  induction suspended with
  | started host known =>
      exact ⟨sound_start known host, rfl, _, [], rfl, .inl ⟨_, rfl⟩⟩
  | paused visit _ paused inductionHypothesis =>
      obtain ⟨sound, rests⟩ := inductionHypothesis
      exact ⟨sound.visit natives visit, rests.visit natives sound paused⟩

end

end Machine

/-! ## The innermost statement -/

/-- The program has the statements that frames of its nodes can push. -/
theorem Tree.StatementsClosed.of_canPush
    {tree : Tree}
    (closed : tree.StatementsClosed)
    {parent : Node}
    {id : StmtId}
    (pushes : tree.canPush parent (.statement id) = true) :
    id.index < tree.stmts.size := by
  cases parent with
  | start entry => cases pushes
  | fieldSetup owner => cases pushes
  | function entry =>
      cases found : tree.function? entry with
      | none => simp [Tree.canPush, found] at pushes
      | some function =>
          have body : function.body = some id := by simpa [Tree.canPush, found] using pushes
          exact closed.bodies function (Array.mem_of_getElem? found) id body
  | statement parent =>
      cases found : tree.stmt? parent with
      | none => simp [Tree.canPush, found] at pushes
      | some statement =>
          have own : id ∈ statement.kind.childStmts := by
            simpa [Tree.canPush, found] using pushes
          exact closed.parts statement (Array.mem_of_getElem? found) id own
  | expression parent demand =>
      cases found : tree.expr? parent with
      | none => simp [Tree.canPush, found] at pushes
      | some expression =>
          obtain ⟨kind, ty, span⟩ := expression
          simp only [Tree.canPush, found] at pushes
          cases kind <;> cases pushes

/-- The program has the innermost statement of a chain. -/
theorem Chain.known_of_statement
    {tree : Tree}
    {bounds : Restored.Bounds}
    {height : Nat}
    {frame : Frame}
    {below : List Frame}
    {id : StmtId}
    (closed : tree.StatementsClosed)
    (chain : Chain tree bounds height (frame :: below))
    (isStatement : frame.node = .statement id) :
    (tree.stmt? id).isSome := by
  have known {parent : Node} (pushes : parent.Pushes tree (.statement id)) :
      (tree.stmt? id).isSome := by
    have inside := closed.of_canPush pushes.pushes
    simpa [Tree.stmt?] using inside
  cases chain with
  | root _ isRoot => exact absurd (isRoot.symm.trans isStatement) (by simp)
  | part _ pushes => exact known (isStatement ▸ pushes)
  | owner _ pushes => exact known (isStatement ▸ pushes)

/-! ## Visits in lockstep -/

namespace Machine.Parallel

variable {shift : Relocation} {setting : Setting} {inner outer : Machine}

/-- Both machines show the same in a visit. -/
theorem visit
    (keeps : setting.registry.KeepsHeaps setting.tree)
    (natives : setting.registry.Respects shift)
    (parallel : Machine.Parallel setting.tree shift inner outer)
    (visit : Visit) :
    SliceResult.Embeds shift (inner.visit setting visit) (outer.visit setting visit) ∧
      Machine.Parallel setting.tree shift (inner.visit setting visit).machine
        (outer.visit setting visit).machine := by
  have ready := parallel.withHost (visit.change inner.host)
  obtain ⟨status, after, trace⟩ := ready.run keeps natives visit.fuel visit.budget
  have closed := after.closeUnused
  unfold Machine.visit
  rw [parallel.embeds.host]
  dsimp only
  rw [trace]
  exact ⟨⟨status, closed.embeds, rfl, rfl⟩, closed⟩

/-- Both machines show the same in all visits. -/
theorem visits
    (keeps : setting.registry.KeepsHeaps setting.tree)
    (natives : setting.registry.Respects shift)
    (parallel : Machine.Parallel setting.tree shift inner outer)
    (visits : List Visit) :
    List.Forall₂ (SliceResult.Embeds shift) (inner.visits setting visits)
      (outer.visits setting visits) := by
  induction visits generalizing inner outer with
  | nil => exact .nil
  | cons first rest inductionHypothesis =>
      obtain ⟨same, next⟩ := parallel.visit keeps natives first
      exact .cons same (inductionHypothesis next)

end Machine.Parallel

namespace Machine

variable {setting : Setting} {machine : Machine}

/-- The innermost frame of a suspended machine is at a step of a node that the program has. -/
theorem Suspended.known
    {tokens : TokenList}
    (accepted : compile setting.registry tokens = .ok setting.tree)
    (keeps : setting.registry.KeepsHeaps setting.tree)
    (suspended : machine.Suspended setting)
    (innermost : Frame)
    (first : machine.frames.head? = some innermost) :
    (innermost.node.lastState? setting.tree).isSome := by
  obtain ⟨sound, -, frame, below, frames, top⟩ := suspended.sound keeps
  have chain := sound.chain (by simp [frames])
  rw [frames, List.head?_cons, Option.some.injEq] at first
  subst first
  rcases top with ⟨entry, isRoot⟩ | ⟨id, isStatement⟩
  · simp [isRoot, Node.lastState?]
  · rw [frames] at chain
    have found := chain.known_of_statement (compile_statementsClosed accepted) isStatement
    simpa [isStatement, Node.lastState?] using found

open Spelled (word mark name)

/--
A program that leaves an instance behind which refers to itself and to a file.
It opens the file, gives it up, and asks whether the first file of the host is
at its end.
-/
def ringTokens : TokenList :=
  Spelled.program
    [mark .classKw, name "Fake", mark .extendsKw, name "file", mark .openBlock, mark .intKw,
      name "handle", mark .semicolon, mark .closeBlock,
      mark .classKw, name "Ring", mark .openBlock, name "Ring", name "next", mark .semicolon,
      name "file", name "kept", mark .semicolon, mark .closeBlock,
      mark .boolKw, name "main", mark .openPar, mark .closePar, mark .openBlock,
      name "file", name "f", mark .assign, mark .newKw, name "file", mark .openPar,
      mark .closePar, mark .semicolon,
      name "Ring", name "r", mark .assign, mark .newKw, name "Ring", mark .openPar,
      mark .closePar, mark .semicolon,
      name "r", mark .dot, name "next", mark .assign, name "r", mark .semicolon,
      name "r", mark .dot, name "kept", mark .assign, name "f", mark .semicolon,
      name "r", mark .assign, mark .nullKw, mark .semicolon,
      name "f", mark .dot, name "open", mark .openPar, word .string "\"a\"", mark .comma,
      word .string "\"w\"", mark .closePar, mark .semicolon,
      name "f", mark .assign, mark .nullKw, mark .semicolon,
      name "Fake", name "k", mark .assign, mark .newKw, name "Fake", mark .openPar,
      mark .closePar, mark .semicolon,
      name "k", mark .dot, name "handle", mark .assign, word .number "1", mark .semicolon,
      mark .returnKw, name "k", mark .dot, name "eof", mark .openPar, mark .closePar,
      mark .semicolon,
      mark .closeBlock]

/-- What the first visit of the program shows. -/
def ringVisit (budget : Nat) : SliceResult :=
  (Spelled.started ringTokens ⟨0⟩).visit (Spelled.setting ringTokens) ⟨id, 1000, some budget⟩

end Machine

end BotScript
