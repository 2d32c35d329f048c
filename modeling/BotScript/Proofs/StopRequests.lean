import BotScript.Proofs.Trace
import BotScript.Proofs.WaitingFrames
import BotScript.Proofs.WorldSteps

namespace BotScript

/-!
# Requests to stop

A request to stop is looked at when a slice begins and whenever a step is counted.  It
ends the program there: the chain is given up, whatever statements would catch
exceptions or run final blocks.
-/

/-!
## The library and requests to stop

A native can ask a running program to stop, and no native of the standard library or of
the workbench takes such a request back.
-/

/-- A request to stop stays. -/
def Host.StopStays (before after : Host) : Prop :=
  before.stopRequested = true → after.stopRequested = true

instance : IsPreorder Host Host.StopStays where
  refl _ := id
  trans _ _ _ first second := second ∘ first

/-- The natives of a registry do not take a request to stop back. -/
abbrev Registry.KeepsStopRequests (registry : Registry) : Prop :=
  registry.SteadyHost Host.StopStays

namespace Action

open BotScript.Steady (andThen)

variable {α : Type}

/-- An action that takes no request to stop back. -/
abbrev Lasting (action : Action α) : Prop :=
  action.SteadyHost Host.StopStays

/-! ## Parts of actions -/

instance (code : ErrorCode) : Lasting (fail code : Action α) := by
  unfold fail
  infer_instance

instance (result : Checked α) : Lasting (ofChecked result) := by
  unfold ofChecked
  split <;> infer_instance

instance (code : ErrorCode) (value : Option α) : Lasting (require code value) := by
  unfold require
  split <;> infer_instance

instance (heap : Heap) : Lasting (setHeap heap) where
  kept _ := id

/-- A change of the host that is no business of the request. -/
theorem lasting_modifyHost
    {change : Host → Host}
    (stays : ∀ host, (change host).stopRequested = host.stopRequested) :
    Lasting (modifyHost change) where
  kept world := (stays world.host).trans

instance (cell : CellId) (value : Value) : Lasting (assign cell value) := by
  unfold assign
  infer_instance

/-! ## Arguments -/

instance (call : NativeCall) (index : Nat) : Lasting (call.string index) := by
  unfold NativeCall.string
  refine andThen fun value => ?_
  split <;> infer_instance

instance (call : NativeCall) (index : Nat) : Lasting (call.int index) := by
  unfold NativeCall.int
  refine andThen fun value => ?_
  split <;> infer_instance

instance (call : NativeCall) : Lasting call.this := by
  unfold NativeCall.this
  infer_instance

instance (call : NativeCall) (name : String) : Lasting (call.fieldCell name) := by
  unfold NativeCall.fieldCell
  infer_instance

/-! ## Files -/

instance (call : NativeCall) : Lasting (FileLibrary.handleOf call) := by
  unfold FileLibrary.handleOf
  infer_instance

instance (object : ObjectId) (handle : FileHandle) :
    Lasting (FileLibrary.attach object handle) where
  kept _ := id

instance (object : ObjectId) : Lasting (FileLibrary.detach object) where
  kept _ := id

instance (call : NativeCall) : Lasting (FileLibrary.nameAndMode call) := by
  unfold FileLibrary.nameAndMode
  split
  · infer_instance
  · refine andThen fun argument => ?_
    split
    · refine andThen fun cell => andThen fun world => ?_
      split <;> infer_instance
    · infer_instance
  · infer_instance
  · infer_instance

instance (call : NativeCall) : Lasting (FileLibrary.openFile call) := by
  unfold FileLibrary.openFile
  have opened (files : FileAccess) (openFiles : OpenFiles) :
      Lasting (modifyHost fun host => { host with files, openFiles }) :=
    lasting_modifyHost fun _ => rfl
  refine andThen fun this => andThen fun named => andThen fun cell => andThen fun _ => ?_
  refine andThen fun handleCell => andThen fun world => ?_
  dsimp only
  split <;> infer_instance

instance (call : NativeCall) (operation : OpenFile → FileAccess → α × OpenFile × FileAccess) :
    Lasting (FileLibrary.withOpen call operation) := by
  unfold FileLibrary.withOpen
  have kept (handle : FileHandle) (file : OpenFile) (files : FileAccess) :
      Lasting (modifyHost fun host =>
        { host with files, openFiles := host.openFiles.set handle file }) :=
    lasting_modifyHost fun _ => rfl
  infer_instance

end Action

/-! ## Registries -/

namespace Registry

open Action (Lasting)
open BotScript.Steady (andThen)

variable {registry : Registry}

/-- No native, no change. -/
theorem empty_keepsStopRequests : empty.KeepsStopRequests where
  natives _ member := absurd member (Array.not_mem_empty _)

/-- A function is registered. -/
theorem KeepsStopRequests.addFunction
    {native : Native}
    (keeps : registry.KeepsStopRequests)
    (lasting : ∀ call, Lasting (native.run call)) :
    (registry.addFunction native).KeepsStopRequests where
  natives other member := by
    obtain member | rfl := Array.mem_push.mp member
    · exact keeps.natives other member
    · exact lasting

/-- Functions are registered. -/
theorem KeepsStopRequests.addFunctions
    {natives : List Native}
    (keeps : registry.KeepsStopRequests)
    (lasting : ∀ native ∈ natives, ∀ call, Lasting (native.run call)) :
    (natives.foldl Registry.addFunction registry).KeepsStopRequests := by
  induction natives generalizing registry with
  | nil => exact keeps
  | cons native natives inductionHypothesis =>
      obtain ⟨first, rest⟩ := List.forall_mem_cons.mp lasting
      exact inductionHypothesis (keeps.addFunction first) rest

/-- A class is registered. -/
theorem KeepsStopRequests.addClass
    {name : String}
    {parent : Option String}
    {fields : List HostField}
    {methods : List Native}
    (keeps : registry.KeepsStopRequests)
    (lasting : ∀ native ∈ methods, ∀ call, Lasting (native.run call)) :
    (registry.addClass name parent fields methods).KeepsStopRequests := by
  unfold Registry.addClass
  split
  · exact keeps
  · refine ⟨fun native member => ?_⟩
    obtain member | member := Array.mem_append.mp member
    · exact keeps.natives native member
    · exact lasting native (by simpa using member)

/-- The text functions and the number of elements of an array. -/
theorem strings_lasting :
    ∀ native ∈ arraySize :: StringLibrary.natives, ∀ call, Lasting (native.run call) := by
  simp only [StringLibrary.natives, List.forall_mem_cons, List.not_mem_nil, false_implies,
    implies_true, and_true]
  refine ⟨fun call => ?_, fun call => ?_, fun call => ?_, fun call => ?_, fun call => ?_,
    fun call => ?_, fun call => ?_, fun call => ?_, fun call => ?_⟩
  · refine andThen fun world => ?_
    split <;> infer_instance
  case refine_7 =>
    refine andThen fun text => andThen fun needle => ?_
    split <;> infer_instance
  all_goals exact .bind _ _

/-- The methods of files. -/
theorem files_lasting :
    ∀ native ∈ FileLibrary.methods, ∀ call, Lasting (native.run call) := by
  simp only [FileLibrary.methods, List.forall_mem_cons, List.not_mem_nil, false_implies,
    implies_true, and_true]
  refine ⟨fun call => ?_, fun call => ?_, fun call => ?_, fun call => ?_, fun call => ?_,
    fun call => ?_⟩
  · unfold FileLibrary.construct
    infer_instance
  case refine_3 =>
    have closed (handle : FileHandle) :
        Lasting (Action.modifyHost fun host =>
          { host with openFiles := host.openFiles.erase handle }) :=
      Action.lasting_modifyHost fun _ => rfl
    have rest (this : ObjectId) (handle : FileHandle) : Lasting (do
        Action.modifyHost fun host =>
          { host with openFiles := host.openFiles.erase handle }
        FileLibrary.detach this
        let cell ← call.fieldCell "handle"
        let world ← get
        Action.setHeap (world.heap.setCell cell (Cell.declared .int))
        pure Value.void) := by
      refine andThen fun _ => andThen fun _ => ?_
      infer_instance
    refine andThen fun this => andThen fun handle => andThen fun world => ?_
    dsimp only
    split <;> infer_instance
  all_goals exact .bind _ _

/-- The function that deletes a file. -/
theorem deleteFile_lasting (call : NativeCall) : Lasting (FileLibrary.deleteFile.run call) := by
  have deleted (files : FileAccess) :
      Lasting (Action.modifyHost fun host => { host with files }) :=
    Action.lasting_modifyHost fun _ => rfl
  exact .bind _ _

/-- The standard library takes no request to stop back. -/
theorem standard_keepsStopRequests : standard.KeepsStopRequests :=
  ((empty_keepsStopRequests.addFunctions strings_lasting).addClass files_lasting).addFunction
    deleteFile_lasting

/-- The functions of the workbench. -/
theorem workbench_functions_lasting :
    ∀ native ∈ [Workbench.print, Workbench.assert, Workbench.failWith, Workbench.kindOfNumber,
      Workbench.kindOfOther, Workbench.halt], ∀ call, Lasting (native.run call) := by
  simp only [List.forall_mem_cons, List.not_mem_nil, false_implies, implies_true, and_true]
  refine ⟨fun call => ?_, fun call => ?_, fun call => ?_, fun call => ?_, fun call => ?_,
    fun call => ?_⟩
  · have printed (text : String) :
        Lasting (Action.modifyHost fun host => { host with log := host.log ++ [text] }) :=
      Action.lasting_modifyHost fun _ => rfl
    refine andThen fun world => ?_
    dsimp only
    split <;> infer_instance
  · dsimp only [Workbench.assert]
    split <;> infer_instance
  · refine andThen fun value => ?_
    split
    · split <;> infer_instance
    · infer_instance
  · exact .bind _ _
  · exact .bind _ _
  · have halted : Lasting (Action.modifyHost fun host => { host with stopRequested := true }) :=
      ⟨fun _ _ => rfl⟩
    exact .bind _ _

/-- The workbench takes no request to stop back. -/
theorem KeepsStopRequests.workbench
    (keeps : registry.KeepsStopRequests) :
    (Workbench.extend registry).KeepsStopRequests := by
  refine (((keeps.addFunctions workbench_functions_lasting).addClass ?_).addClass ?_).addClass
    fun _ isThere => by cases isThere
  · simp only [List.forall_mem_cons, List.not_mem_nil, false_implies, implies_true, and_true]
    exact ⟨fun _ => .bind _ _, fun _ => .bind _ _⟩
  · simp only [List.forall_mem_cons, List.not_mem_nil, false_implies, implies_true, and_true]
    exact fun _ => .bind _ _

end Registry

open Relation (ReflTransGen)

/-- To close the files of unused instances is no business of a request to stop. -/
theorem World.stopRequested_closeUnused
    (world : World)
    (roots : List HeapRef) :
    (world.closeUnused roots).host.stopRequested = world.host.stopRequested := by
  have closed (world : World) (id : ObjectId) :
      (world.closeFile id).host.stopRequested = world.host.stopRequested := by
    unfold World.closeFile
    dsimp only
    split <;> rfl
  have folded (unused : List Nat) (world : World) :
      (unused.foldl (fun world index => world.closeFile ⟨index⟩) world).host.stopRequested =
        world.host.stopRequested := by
    induction unused generalizing world with
    | nil => rfl
    | cons index unused inductionHypothesis =>
        exact (inductionHypothesis _).trans (closed world ⟨index⟩)
  unfold World.closeUnused
  dsimp only
  split
  · rfl
  · exact folded _ world

/-- The move of a frame does not take a request to stop back. -/
theorem Frame.play_stopRequested
    {setting : Setting}
    {incoming : Option Completion}
    {memory : Memory}
    (frame : Frame)
    (keeps : setting.registry.KeepsStopRequests)
    (requested : memory.world.host.stopRequested = true) :
    (frame.play setting incoming memory).2.world.host.stopRequested = true :=
  have kept :
      Host.StopStays memory.world.host
        ((Step.ofFrame setting frame incoming).run.run memory).2.world.host :=
    Step.host_ofFrame frame incoming memory
  kept requested

namespace Machine

variable {setting : Setting} {machine mid next last : Machine}

/-- A turn that goes on does not take a request to stop back. -/
theorem stopRequested_advance
    (keeps : setting.registry.KeepsStopRequests)
    (goesOn : machine.advance setting = .moved next ∨ machine.advance setting = .counted next)
    (requested : machine.host.stopRequested = true) :
    next.host.stopRequested = true := by
  obtain ⟨memory, _ | ⟨frame, below⟩, incoming, outcome, steps⟩ := machine
  · obtain moved | counted := goesOn
    · cases moved
    · cases counted
  rw [advance_cons] at goesOn
  have ready :
      (readyMemory setting ⟨memory, frame :: below, incoming, outcome, steps⟩
        frame).world.host.stopRequested = true := by
    unfold readyMemory
    split
    · exact (World.stopRequested_closeUnused _ _).trans requested
    · exact requested
  have played :
      (frame.play setting incoming
        (readyMemory setting ⟨memory, frame :: below, incoming, outcome, steps⟩
          frame)).2.world.host.stopRequested = true :=
    frame.play_stopRequested keeps ready
  revert played goesOn
  generalize frame.play setting incoming _ = taken
  obtain ⟨result, after⟩ := taken
  intro goesOn played
  have left : (memoryAfter frame after).world.host.stopRequested = true := by
    obtain ⟨world, activations, statics⟩ := after
    unfold memoryAfter
    dsimp only
    split <;> exact played
  rcases result with fault | ⟨stay, child⟩ | stay | completion <;>
    obtain moved | counted := goesOn <;> first | cases moved | cases counted
  · exact played
  · exact played
  · exact left

/-! ## Turns that count no step -/

/-- Turns that count no step leave the number of steps. -/
theorem steps_moves
    (moves : ReflTransGen (Moves setting) machine next) :
    next.steps = machine.steps := by
  induction moves with
  | refl => rfl
  | tail _ moved inductionHypothesis => exact (advance_moved_steps moved).trans inductionHypothesis

/-- Turns that count no step do not take a request to stop back. -/
theorem stopRequested_moves
    (keeps : setting.registry.KeepsStopRequests)
    (requested : machine.host.stopRequested = true)
    (moves : ReflTransGen (Moves setting) machine next) :
    next.host.stopRequested = true := by
  induction moves with
  | refl => exact requested
  | tail _ moved inductionHypothesis =>
      exact stopRequested_advance keeps (.inl moved) inductionHypothesis

/-! ## The end of a run -/

/-- A chain that has been given up where a machine stands: nothing but the chain changes. -/
structure GivenUp (setting : Setting) (machine stopped : Machine) : Prop where
  world : stopped.memory.world = machine.memory.world
  statics : stopped.memory.statics = machine.memory.statics
  steps : stopped.steps = machine.steps
  frames : stopped.frames = []
  activations : stopped.memory.activations = #[]
  incoming : stopped.incoming = none
  /-- The error is reported at the innermost frame. -/
  outcome :
    stopped.outcome =
      .failed (.ofCode .notRunning
        ((machine.frames.head?.map fun frame => frame.node.span setting.tree).getD Span.none))

/-- To abort a run gives its chain up. -/
theorem abort_givenUp (machine : Machine) : machine.GivenUp setting (machine.abort setting) :=
  ⟨rfl, rfl, rfl, rfl, rfl, rfl, rfl⟩

/--
How a slice goes on once it has been asked to stop: the chain is given up at the next
step that is counted, or the program ends before that, or the fuel does.
-/
inductive Stops (setting : Setting) (machine : Machine) : RunStatus × Machine → Prop where
  | aborted
      {last next stopped : Machine} :
      ReflTransGen (Moves setting) machine last →
      last.advance setting = .counted next →
      next.GivenUp setting stopped →
      Stops setting machine (.failed, stopped)
  | ended
      {last final : Machine} :
      ReflTransGen (Moves setting) machine last →
      last.advance setting = .ended final →
      Stops setting machine (final.endStatus, final)
  | outOfFuel
      {last : Machine} :
      ReflTransGen (Moves setting) machine last →
      Stops setting machine (.outOfFuel, last)

/-- A slice that has been asked to stop. -/
theorem stops_runFor
    (keeps : setting.registry.KeepsStopRequests)
    (requested : machine.host.stopRequested = true)
    (fuel : Nat)
    (budget : Option Nat) :
    machine.Stops setting (machine.runFor setting fuel budget) := by
  induction fuel generalizing machine with
  | zero => exact .outOfFuel .refl
  | succ fuel inductionHypothesis =>
      unfold Machine.runFor
      cases turn : machine.advance setting with
      | moved next =>
          have stops := inductionHypothesis (stopRequested_advance keeps (.inl turn) requested)
          dsimp only
          generalize next.runFor setting fuel budget = result at stops
          cases stops with
          | aborted moves counted givenUp => exact .aborted (.head turn moves) counted givenUp
          | ended moves ended => exact .ended (.head turn moves) ended
          | outOfFuel moves => exact .outOfFuel (.head turn moves)
      | ended final => exact .ended .refl turn
      | counted next =>
          dsimp only
          rw [if_pos (stopRequested_advance keeps (.inr turn) requested)]
          exact .aborted .refl turn (abort_givenUp next)

/-- A run that is asked to stop before it goes on gives its chain up at once. -/
theorem run_stopRequested
    (setting : Setting)
    (running : machine.outcome = .running)
    (requested : machine.host.stopRequested = true)
    (fuel : Nat)
    (budget : Option Nat) :
    machine.run setting fuel budget = (.failed, machine.abort setting) ∧
      machine.trace setting fuel budget = ([], 0) := by
  simp [Machine.run, Machine.trace, running, requested]

/-- A turn that goes on leaves a program running. -/
theorem runFor_outcome
    (running : machine.outcome = .running)
    (fuel : Nat)
    (budget : Option Nat)
    (isOver : (machine.runFor setting fuel budget).2.outcome ≠ .running) :
    (machine.runFor setting fuel budget).1 = (machine.runFor setting fuel budget).2.endStatus := by
  induction fuel generalizing machine budget with
  | zero => exact absurd running isOver
  | succ fuel inductionHypothesis =>
      unfold Machine.runFor at isOver ⊢
      cases turn : machine.advance setting with
      | moved next =>
          rw [turn] at isOver
          exact inductionHypothesis ((advance_outcome (.inl turn)).trans running) budget isOver
      | ended final => rfl
      | counted next =>
          have goesOn := (advance_outcome (.inr turn)).trans running
          rw [turn] at isOver
          dsimp only at isOver ⊢
          split at isOver
          · next requested =>
            rw [if_pos requested]
            rfl
          · next unrequested =>
            rw [if_neg unrequested]
            obtain _ | _ | _ | left := budget
            · exact inductionHypothesis goesOn _ isOver
            · exact absurd goesOn isOver
            · exact absurd goesOn isOver
            · exact inductionHypothesis goesOn _ isOver

/-- A run of a program that has ended changes nothing. -/
theorem run_over
    (isOver : machine.outcome ≠ .running)
    (fuel : Nat)
    (budget : Option Nat) :
    machine.run setting fuel budget = (machine.endStatus, machine) := by
  unfold Machine.run
  cases outcome : machine.outcome with
  | running => exact absurd outcome isOver
  | _ => rfl

/-- The status of a run that has ended its program is that of the program. -/
theorem run_endStatus
    (fuel : Nat)
    (budget : Option Nat)
    (isOver : (machine.run setting fuel budget).2.outcome ≠ .running) :
    (machine.run setting fuel budget).1 = (machine.run setting fuel budget).2.endStatus := by
  by_cases running : machine.outcome = .running
  · unfold Machine.run at isOver ⊢
    rw [running] at isOver ⊢
    dsimp only at isOver ⊢
    split at isOver
    · next requested =>
      rw [if_pos requested]
      rfl
    · next unrequested =>
      rw [if_neg unrequested]
      split at isOver
      · exact absurd running isOver
      · next isBudget =>
        rw [if_neg isBudget]
        exact runFor_outcome running fuel budget isOver
  · rw [run_over running]

/--
A request to stop that stands when a slice begins gives the chain up at once.  One that a
turn makes gives it up at the next step that is counted; until then no statement is
entered and no loop tests for another round.  A program that has ended stays as it is.
-/
theorem attained_stops
    (attained : machine.Attained setting) :
    (machine.outcome = .running → machine.host.stopRequested = true → ∀ fuel budget,
      (∃ stopped, machine.run setting fuel budget = (.failed, stopped) ∧
        machine.GivenUp setting stopped) ∧
      machine.trace setting fuel budget = ([], 0)) ∧
    (setting.registry.KeepsStopRequests →
      ∀ mid, machine.advance setting = .moved mid → mid.host.stopRequested = true →
        (∀ fuel budget, mid.Stops setting (machine.runFor setting (fuel + 1) budget)) ∧
        ∀ later, ReflTransGen (Moves setting) mid later →
          later.host.stopRequested = true ∧ later.steps = machine.steps ∧
            ∀ frame below, later.frames = frame :: below →
              ¬ frame.AtRound setting.tree ∧
                (frame.AtEntry → ∃ next, later.advance setting = .counted next)) ∧
    ∀ fuel budget, (machine.run setting fuel budget).2.outcome ≠ .running →
      ∀ fuel' budget',
        (machine.run setting fuel budget).2.run setting fuel' budget' =
          machine.run setting fuel budget := by
  refine ⟨fun running requested fuel budget => ?_, fun keeps mid moved requested => ?_,
    fun fuel budget isOver fuel' budget' => ?_⟩
  · obtain ⟨run, trace⟩ := run_stopRequested setting running requested fuel budget
    exact ⟨⟨_, run, abort_givenUp machine⟩, trace⟩
  · refine ⟨fun fuel budget => ?_, fun later moves => ?_⟩
    · unfold Machine.runFor
      rw [moved]
      exact stops_runFor keeps requested fuel budget
    · refine ⟨stopRequested_moves keeps requested moves,
        (steps_moves moves).trans (advance_moved_steps moved), fun frame below frames => ?_⟩
      refine ⟨?_, advance_atEntry frames⟩
      obtain ⟨before, moves, arrives⟩ :=
        Relation.TransGen.tail'_iff.mp (Relation.TransGen.head' (r := Moves setting) moved moves)
      exact (attained.moves moves).waits.head_not_atRound arrives frames
  · rw [run_over isOver]
    exact Prod.ext (run_endStatus fuel budget isOver).symm rfl

/-- An endless loop around a try statement that asks to stop, and again in its final block. -/
def haltingText : String :=
  "void main() \x7b while (true) \x7b try \x7b halt(); \x7d finally \x7b halt(); \x7d \x7d \x7d"

/-- The loop runs on a workbench. -/
def haltingSetting : Setting :=
  let registry := Workbench.extend .standard
  let tokens := TokenList.ofSource registry.constants haltingText
  ⟨((compile registry tokens).toOption).getD {}, registry, 1000⟩

/-- The loop when it is about to ask to stop. -/
def aboutToHalt : Machine :=
  ((start haltingSetting ⟨0⟩ default).runFor haltingSetting 14 none).2

/-- The request ends the program at the first statement of the final block, and for good. -/
theorem attained_stops_halting :
    aboutToHalt.Attained haltingSetting ∧
      haltingSetting.registry.KeepsStopRequests ∧
      (aboutToHalt.advance haltingSetting).machine.host.stopRequested = true ∧
      ∃ next stopped : Machine,
        next.GivenUp haltingSetting stopped ∧ stopped.steps = aboutToHalt.steps + 1 ∧
          aboutToHalt.runFor haltingSetting 20 none = (.failed, stopped) ∧
          ∀ fuel budget, stopped.run haltingSetting fuel budget = (.failed, stopped) := by
  have attained : aboutToHalt.Attained haltingSetting := (Attained.started _ _).runFor 14 none
  have keeps : haltingSetting.registry.KeepsStopRequests :=
    Registry.standard_keepsStopRequests.workbench
  obtain ⟨moved, requested, failed, steps, isOver, runs, apart⟩ :
      aboutToHalt.advance haltingSetting = .moved (aboutToHalt.advance haltingSetting).machine ∧
        (aboutToHalt.advance haltingSetting).machine.host.stopRequested = true ∧
        (aboutToHalt.run haltingSetting 20 none).1 = .failed ∧
        (aboutToHalt.run haltingSetting 20 none).2.steps = aboutToHalt.steps + 1 ∧
        (aboutToHalt.run haltingSetting 20 none).2.outcome ≠ .running ∧
        aboutToHalt.run haltingSetting 20 none = aboutToHalt.runFor haltingSetting 20 none ∧
        aboutToHalt.steps + 1 ≠ aboutToHalt.steps := by
    decide +kernel
  obtain ⟨-, asked, lasting⟩ := attained_stops attained
  obtain ⟨stops, still⟩ := asked keeps _ moved requested
  specialize stops 19 none
  specialize lasting 20 none isOver
  rw [← runs] at stops ⊢
  generalize aboutToHalt.run haltingSetting 20 none = result at *
  cases stops with
  | aborted moves counted givenUp =>
      exact ⟨attained, keeps, requested, _, _, givenUp, steps, rfl, lasting⟩
  | @ended last final moves ended =>
      have same := (advance_ended ended).1.trans (still last moves).2.1
      rw [show final.steps = _ from steps] at same
      exact absurd same apart
  | outOfFuel => cases failed

end Machine

end BotScript
