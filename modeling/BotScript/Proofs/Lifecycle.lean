import BotScript.Facade
import BotScript.Host.Standard
import Mathlib.Control.Monad.Basic
import Mathlib.Logic.Relation

namespace BotScript

/-!
# The life of a program

What a call leaves behind is told by one relation, case by case.  From it follows what
every sequence of calls keeps: a chain runs over what has been compiled, a call that is
refused changes nothing unless it compiles, and what has been compiled before is gone.
-/

/--
A machine has been started or restored over a setting, and all the slices that it has
run since then were over this setting.
-/
inductive Machine.RunsOver (setting : Setting) : Machine → Prop where
  | started
      (entry : FuncId)
      (host : Host) :
      RunsOver setting (.start setting entry host)
  | restored
      {machine : Machine}
      {snapshot : Snapshot}
      {expected : UInt32}
      {host : Host} :
      Machine.restore setting.tree snapshot expected host = .ok machine →
      RunsOver setting machine
  | ran
      {machine : Machine}
      (fuel : Nat)
      (budget : Option Nat) :
      RunsOver setting machine →
      RunsOver setting (machine.run setting fuel budget).2
  | withHost
      {machine : Machine}
      (host : Host) :
      RunsOver setting machine →
      RunsOver setting (machine.withHost host)
  | closeUnused
      {machine : Machine} :
      RunsOver setting machine →
      RunsOver setting machine.closeUnused

/-- What has been compiled is the tree of a text, with its tokens and their signature. -/
structure Compiled.Of (registry : Registry) (source : String) (compiled : Compiled) : Prop where
  tokens : compiled.tokens = TokenList.ofSource registry.constants source
  tree : compile registry compiled.tokens = .ok compiled.tree
  signature : compiled.signature = compiled.tokens.wholeSignature

/-- A new chain over what has been compiled: a function is started or a snapshot is restored. -/
inductive Configuration.Begins (config : Configuration) (compiled : Compiled) : Machine → Prop where
  | start
      (entry : FuncId)
      (host : Host) :
      Begins config compiled (.start (config.setting compiled) entry host)
  | restore
      {machine : Machine}
      {snapshot : Snapshot}
      {host : Host} :
      Machine.restore compiled.tree snapshot compiled.signature host = .ok machine →
      Begins config compiled machine

/-- A new chain runs over what has been compiled. -/
theorem Configuration.Begins.runsOver
    {config : Configuration}
    {compiled : Compiled}
    {machine : Machine}
    (begins : config.Begins compiled machine) :
    machine.RunsOver (config.setting compiled) := by
  cases begins with
  | start entry host => exact .started entry host
  | restore restores => exact .restored restores

namespace Session

/-! ## What a call leads to -/

/-- The answer of a call and the session that it leaves, case by case. -/
inductive Led (config : Configuration) (session : Session) :
    Call → Except Refusal Answer × Session → Prop where
  | refused
      {call : Call}
      (refusal : Refusal) :
      call.isCompile = false →
      Led config session call (.error refusal, session)
  | compiled
      {source : String}
      {compiled : Compiled}
      {after : Session} :
      compiled.Of config.registry source →
      after.program =
        { source, compiled := some compiled, stopRequested := session.program.stopRequested } →
      Led config session (.compile source) (.ok .done, after)
  | uncompiled
      {source : String}
      {refusal : Refusal}
      {after : Session} :
      after.program.compiled = none →
      after.program.machine = none →
      Led config session (.compile source) (.error refusal, after)
  | installed
      {call : Call}
      {compiled : Compiled}
      {machine : Machine}
      {after : Session} :
      call.isCompile = false →
      session.program.compiled = some compiled →
      config.Begins compiled machine →
      after.program = { session.program with machine := some machine, stopRequested := false } →
      Led config session call (.ok .done, after)
  | ran
      {call : Call}
      {compiled : Compiled}
      {machine : Machine}
      {after : Session}
      {host : Host}
      {fuel : Nat}
      {budget : Option Nat}
      {stopRequested : Bool}
      (status : RunStatus) :
      call.isCompile = false →
      session.program.compiled = some compiled →
      session.program.machine = some machine →
      after.program =
        { session.program with
          machine :=
            some ((machine.withHost host).run (config.setting compiled) fuel budget).2.closeUnused
          stopRequested } →
      Led config session call (.ok (.ran status), after)
  | saved
      (bytes : List UInt8) :
      Led config session .save (.ok (.saved bytes), session)
  | stopped :
      Led config session .stop (.ok .done, { session with program := session.program.stop })

section Calls

variable {config : Configuration} {session : Session} {compiled : Compiled}

/-- What follows an operation that is done. -/
theorem bind_done
    {α β : Type}
    {first : Operation α}
    {next : α → Operation β}
    {between : Session}
    {value : α}
    (runs : first.run.run session = (.ok value, between)) :
    (first >>= next).run.run session = (next value).run.run between := by
  simp only [ExceptT.run_bind, StateT.run_bind, runs]
  rfl

/-- Nothing follows an operation that fails. -/
theorem bind_failed
    {α β : Type}
    {first : Operation α}
    {next : α → Operation β}
    {after : Session}
    {error : ProgramError}
    (runs : first.run.run session = (.error error, after)) :
    (first >>= next).run.run session = (.error error, after) := by
  simp only [ExceptT.run_bind, StateT.run_bind, runs]
  rfl

/-- The answer of an operation that is done. -/
theorem answering_ok
    {α : Type}
    {operation : Operation α}
    {answer : α → Answer}
    {value : α}
    {after : Session}
    (runs : operation.run.run session = (.ok value, after)) :
    answering operation answer session = (.ok (answer value), after) := by
  rw [answering, runs]

/-- An operation that fails is refused. -/
theorem answering_error
    {α : Type}
    {operation : Operation α}
    {answer : α → Answer}
    {error : ProgramError}
    {after : Session}
    (runs : operation.run.run session = (.error error, after)) :
    answering operation answer session = (.error (.failed error), after) := by
  rw [answering, runs]

/-- What has been compiled is found. -/
theorem compiled_found
    (isCompiled : session.program.compiled = some compiled) :
    Session.compiled.run.run session = (.ok compiled, session) := by
  unfold Session.compiled
  rw [bind_done (show (get : Operation Session).run.run session = _ from rfl), isCompiled]
  rfl

/-- Nothing has been compiled. -/
theorem compiled_missing
    (isMissing : session.program.compiled = none) :
    Session.compiled.run.run session = (.error .notCompiled, session) := by
  unfold Session.compiled
  rw [bind_done (show (get : Operation Session).run.run session = _ from rfl), isMissing]
  rfl

/-- The chain is found. -/
theorem machine_found
    {machine : Machine}
    (isThere : session.program.machine = some machine) :
    Session.machine.run.run session = (.ok machine, session) := by
  unfold Session.machine
  rw [bind_done (show (get : Operation Session).run.run session = _ from rfl), isThere]
  rfl

/-- There is no chain. -/
theorem machine_missing
    (isMissing : session.program.machine = none) :
    Session.machine.run.run session = (.error .notRunning, session) := by
  unfold Session.machine
  rw [bind_done (show (get : Operation Session).run.run session = _ from rfl), isMissing]
  rfl

/-- A new chain takes the place of the former one, and a request to stop is forgotten. -/
theorem install_run (machine : Machine) (session : Session) :
    ∃ after,
      (install machine).run.run session = (.ok (), after) ∧
        after.program = { session.program with machine := some machine, stopRequested := false } := by
  obtain ⟨⟨source, compiled, compileError, former, stopRequested⟩, host⟩ := session
  cases former <;> exact ⟨_, rfl, rfl⟩

/-- A text takes the place of the former one, whether or not it is accepted. -/
theorem compile_run (config : Configuration) (source : String) (session : Session) :
    (∃ compiled after,
        (Session.compile config source).run.run session = (.ok (), after) ∧
          compiled.Of config.registry source ∧
          after.program =
            { source, compiled := some compiled,
              stopRequested := session.program.stopRequested }) ∨
      ∃ error after,
        (Session.compile config source).run.run session = (.error (.compile error), after) ∧
          after.program =
            { source, compileError := some error,
              stopRequested := session.program.stopRequested } := by
  obtain ⟨⟨_, _, _, machine, stopRequested⟩, host⟩ := session
  let tokens := TokenList.ofSource config.registry.constants source
  unfold Session.compile
  simp only [ExceptT.run_bind, StateT.run_bind]
  cases accepted : BotScript.compile config.registry tokens with
  | ok tree =>
      refine .inl ⟨⟨tokens, tree, tokens.wholeSignature⟩, ?_⟩
      cases machine <;> exact ⟨_, rfl, ⟨rfl, accepted, rfl⟩, rfl⟩
  | error error =>
      refine .inr ⟨error, ?_⟩
      cases machine <;> exact ⟨_, rfl, rfl⟩

/-- A text that is too large is given up together with what it would replace. -/
theorem clear_run (session : Session) :
    (clear.run.run session).2.program = { stopRequested := session.program.stopRequested } := by
  obtain ⟨⟨_, _, _, machine, _⟩, _⟩ := session
  cases machine <;> rfl

/-- What a call to compile leads to. -/
theorem compile_led (source : String) :
    Led config session (.compile source) (session.call config (.compile source)) := by
  unfold Session.call
  dsimp only
  split
  · exact .uncompiled (clear_run session ▸ rfl) (clear_run session ▸ rfl)
  · unfold answering
    obtain ⟨compiled, after, runs, isOf, program⟩ | ⟨error, after, runs, program⟩ :=
      compile_run config source session
    · rw [runs]
      exact .compiled isOf program
    · rw [runs]
      exact .uncompiled (program ▸ rfl) (program ▸ rfl)

/-- What a call to start a function leads to. -/
theorem start_led (entry : String) :
    Led config session (.start entry) (session.call config (.start entry)) := by
  change Led config session _ (answering (start config entry) (fun _ => .done) session)
  cases isCompiled : session.program.compiled with
  | none =>
      rw [start, answering_error (bind_failed (compiled_missing isCompiled))]
      exact .refused _ rfl
  | some compiled =>
      cases found : compiled.tree.entryPoint entry with
      | error error =>
          have runs : (start config entry).run.run session = (.error error, session) := by
            rw [start, bind_done (compiled_found isCompiled)]
            simp only [found]
            rfl
          rw [answering_error runs]
          exact .refused _ rfl
      | ok id =>
          obtain ⟨after, installs, program⟩ :=
            install_run (.start (config.setting compiled) id session.host) session
          have runs : (start config entry).run.run session = (.ok (), after) := by
            rw [start, bind_done (compiled_found isCompiled)]
            simp only [found]
            exact installs
          rw [answering_ok runs]
          exact .installed rfl isCompiled (.start id session.host) program

/-- What a call to run a slice leads to. -/
theorem run_led
    {call : Call}
    (fuel : Nat)
    (budget : Option Nat)
    (isRun : call.isCompile = false) :
    Led config session call (answering (run config fuel budget) .ran session) := by
  cases isThere : session.program.machine with
  | none =>
      rw [run, answering_error (bind_failed (machine_missing isThere))]
      exact .refused _ isRun
  | some machine =>
      cases isCompiled : session.program.compiled with
      | none =>
          have runs :
              (run config fuel budget).run.run session = (.error .notCompiled, session) := by
            rw [run, bind_done (machine_found isThere), bind_failed (compiled_missing isCompiled)]
          rw [answering_error runs]
          exact .refused _ isRun
      | some compiled =>
          unfold answering
          rw [run, bind_done (machine_found isThere), bind_done (compiled_found isCompiled)]
          exact .ran _ isRun isCompiled isThere rfl

/-- What a call to save leads to. -/
theorem save_led : Led config session .save (session.call config .save) := by
  change Led config session _ (answering save .saved session)
  cases isCompiled : session.program.compiled with
  | none =>
      rw [save, answering_error (bind_failed (compiled_missing isCompiled))]
      exact .refused _ rfl
  | some compiled =>
      cases isThere : session.program.machine with
      | none =>
          have runs : save.run.run session = (.error .notRunning, session) := by
            rw [save, bind_done (compiled_found isCompiled), bind_failed (machine_missing isThere)]
          rw [answering_error runs]
          exact .refused _ rfl
      | some machine =>
          unfold answering
          rw [save, bind_done (compiled_found isCompiled), bind_done (machine_found isThere)]
          cases machine.save compiled.tree compiled.signature with
          | error error => exact .refused _ rfl
          | ok snapshot => exact .saved _

/-- What a call to restore leads to. -/
theorem restore_led (bytes : List UInt8) :
    Led config session (.restore bytes) (session.call config (.restore bytes)) := by
  change Led config session _ (answering (restore bytes) (fun _ => .done) session)
  cases isCompiled : session.program.compiled with
  | none =>
      rw [restore, answering_error (bind_failed (compiled_missing isCompiled))]
      exact .refused _ rfl
  | some compiled =>
      have looks : (get : Operation Session).run.run session = (.ok session, session) := rfl
      cases restores :
          (Snapshot.ofBytes bytes >>= fun snapshot =>
            Machine.restore compiled.tree snapshot compiled.signature session.host) with
      | error error =>
          have runs : (restore bytes).run.run session = (.error (.snapshot error), session) := by
            rw [restore, bind_done (compiled_found isCompiled), bind_done looks]
            simp only [restores]
            rfl
          rw [answering_error runs]
          exact .refused _ rfl
      | ok machine =>
          obtain ⟨after, installs, program⟩ := install_run machine session
          have runs : (restore bytes).run.run session = (.ok (), after) := by
            rw [restore, bind_done (compiled_found isCompiled), bind_done looks]
            simp only [restores]
            exact installs
          rw [answering_ok runs]
          cases read : Snapshot.ofBytes bytes with
          | error error =>
              rw [read] at restores
              cases restores
          | ok snapshot =>
              rw [read] at restores
              exact .installed rfl isCompiled (.restore restores) program

/-- What a call leads to. -/
theorem call_led (call : Call) : Led config session call (session.call config call) := by
  cases call with
  | compile source => exact compile_led source
  | start entry => exact start_led entry
  | run fuel => exact run_led fuel config.stepBudget rfl
  | runSteps fuel steps => exact run_led fuel (some steps) rfl
  | save => exact save_led
  | restore bytes => exact restore_led bytes
  | stop => exact .stopped

end Calls

/-! ## Sequences of calls -/

variable {config : Configuration} {session after later : Session}

/-- A new program after calls on it, between which the host changes as it likes. -/
inductive Reached (config : Configuration) : Session → Prop where
  | fresh
      (host : Host) :
      Reached config { host }
  | called
      {session : Session}
      (call : Call) :
      Reached config session →
      Reached config (session.call config call).2
  | withHost
      {session : Session}
      (host : Host) :
      Reached config session →
      Reached config { session with host }

/-- One call on a program, or a change of its host, by which no text has been accepted. -/
inductive Goes (config : Configuration) : Session → Session → Prop where
  | called
      {session after : Session}
      {call : Call}
      {result : Except Refusal Answer} :
      session.call config call = (result, after) →
      (call.isCompile = true → ∃ refusal, result = .error refusal) →
      Goes config session after
  | withHost
      {session : Session}
      (host : Host) :
      Goes config session { session with host }

/-- What a program holds at any time fits together. -/
structure Consistent (config : Configuration) (session : Session) : Prop where
  /-- What has been compiled is the tree of the text. -/
  compiled :
    ∀ compiled ∈ session.program.compiled, compiled.Of config.registry session.program.source
  /-- A chain is there only with what has been compiled, and runs over it. -/
  machine :
    ∀ machine ∈ session.program.machine, ∃ compiled ∈ session.program.compiled,
      machine.RunsOver (config.setting compiled)
  /-- Next to an error of the compilation there is nothing to run. -/
  error :
    session.program.compileError.isSome →
      session.program.compiled = none ∧ session.program.machine = none

/-- Nothing can be started, and nothing runs. -/
structure Idle (config : Configuration) (session : Session) : Prop where
  start :
    ∀ entry, session.call config (.start entry) = (.error (.failed .notCompiled), session)
  run : ∀ fuel, session.call config (.run fuel) = (.error (.failed .notRunning), session)
  runSteps :
    ∀ fuel steps,
      session.call config (.runSteps fuel steps) = (.error (.failed .notRunning), session)

/-- A program without a compiled text and without a chain is idle. -/
theorem Idle.ofProgram
    (compiled : session.program.compiled = none)
    (machine : session.program.machine = none) :
    session.Idle config where
  start _ := answering_error (bind_failed (compiled_missing compiled))
  run _ := answering_error (bind_failed (machine_missing machine))
  runSteps _ _ := answering_error (bind_failed (machine_missing machine))

/-- A call keeps what a program holds together. -/
theorem Consistent.call
    (consistent : session.Consistent config)
    (call : Call) :
    (session.call config call).2.Consistent config := by
  have led : Led config session call (session.call config call) := call_led call
  generalize session.call config call = answered at led
  cases led with
  | refused refusal => exact consistent
  | compiled isOf program =>
      constructor <;> simp only [program]
      · rintro _ ⟨⟩
        exact isOf
      · rintro _ ⟨⟩
      · rintro ⟨⟩
  | uncompiled compiled machine =>
      constructor <;> simp only [compiled, machine]
      · rintro _ ⟨⟩
      · rintro _ ⟨⟩
      · exact fun _ => ⟨trivial, trivial⟩
  | installed isOther isCompiled begins program =>
      constructor <;> simp only [program]
      · exact consistent.compiled
      · rintro _ ⟨⟩
        exact ⟨_, isCompiled, begins.runsOver⟩
      · intro isError
        cases isCompiled.symm.trans (consistent.error isError).1
  | ran status isOther isCompiled isThere program =>
      constructor <;> simp only [program]
      · exact consistent.compiled
      · rintro _ ⟨⟩
        obtain ⟨former, isFormer, runsOver⟩ := consistent.machine _ isThere
        cases isCompiled.symm.trans isFormer
        exact ⟨_, isCompiled, .closeUnused (.ran _ _ (.withHost _ runsOver))⟩
      · intro isError
        cases isCompiled.symm.trans (consistent.error isError).1
  | saved bytes => exact consistent
  | stopped => exact ⟨consistent.compiled, consistent.machine, consistent.error⟩

/-- What a program holds fits together after every sequence of calls. -/
theorem Reached.consistent (reached : Reached config session) : session.Consistent config := by
  induction reached with
  | fresh host =>
      exact ⟨fun _ h => (Option.not_mem_none _ h).elim, fun _ h => (Option.not_mem_none _ h).elim,
        fun h => by cases h⟩
  | called call _ consistent => exact consistent.call call
  | withHost host _ consistent =>
      exact ⟨consistent.compiled, consistent.machine, consistent.error⟩

/-- A call that does not compile and is refused changes nothing. -/
theorem refused_unchanged
    {call : Call}
    {refusal : Refusal}
    (isOther : call.isCompile = false)
    (refused : session.call config call = (.error refusal, after)) :
    after = session := by
  have led : Led config session call (session.call config call) := call_led call
  rw [refused] at led
  cases led with
  | refused _ => rfl
  | uncompiled => cases isOther

/-- Without a text that is accepted, what is not there does not come. -/
theorem Goes.remains_empty
    (goes : Goes config session after)
    (compiled : session.program.compiled = none)
    (machine : session.program.machine = none) :
    after.program.compiled = none ∧ after.program.machine = none := by
  cases goes with
  | @called _ call result calls notAccepted =>
      have led : Led config session call (session.call config call) := call_led call
      rw [calls] at led
      cases led with
      | refused _ => exact ⟨compiled, machine⟩
      | compiled _ _ =>
          obtain ⟨_, isRefused⟩ := notAccepted rfl
          cases isRefused
      | uncompiled compiled' machine' => exact ⟨compiled', machine'⟩
      | installed _ isCompiled => cases compiled.symm.trans isCompiled
      | ran _ _ isCompiled => cases compiled.symm.trans isCompiled
      | saved => exact ⟨compiled, machine⟩
      | stopped => exact ⟨compiled, machine⟩
  | withHost host => exact ⟨compiled, machine⟩

/-- Without a text that is accepted, nothing else comes in the place of what is compiled. -/
theorem Goes.remains_compiled
    {compiled : Compiled}
    (goes : Goes config session after)
    (isOnly : ∀ former ∈ session.program.compiled, former = compiled) :
    ∀ former ∈ after.program.compiled, former = compiled := by
  cases goes with
  | @called _ call result calls notAccepted =>
      have led : Led config session call (session.call config call) := call_led call
      rw [calls] at led
      cases led with
      | refused _ => exact isOnly
      | compiled _ _ =>
          obtain ⟨_, isRefused⟩ := notAccepted rfl
          cases isRefused
      | uncompiled isMissing => simp [isMissing]
      | installed _ _ _ program => simpa only [program] using isOnly
      | ran _ _ _ _ program => simpa only [program] using isOnly
      | saved => exact isOnly
      | stopped => exact isOnly
  | withHost host => exact isOnly

/-- What a program holds goes on fitting together. -/
theorem Goes.consistent
    (goes : Goes config session after)
    (consistent : session.Consistent config) :
    after.Consistent config := by
  cases goes with
  | @called _ call result calls _ =>
      have kept := consistent.call call
      rwa [calls] at kept
  | withHost host => exact ⟨consistent.compiled, consistent.machine, consistent.error⟩

/-- After a text that is refused nothing runs until a text is accepted. -/
theorem Goes.idle_until_accepted
    (goes : Relation.ReflTransGen (Goes config) session later)
    (compiled : session.program.compiled = none)
    (machine : session.program.machine = none) :
    later.Idle config := by
  suffices isEmpty : later.program.compiled = none ∧ later.program.machine = none from
    .ofProgram isEmpty.1 isEmpty.2
  induction goes with
  | refl => exact ⟨compiled, machine⟩
  | tail _ goes inductionHypothesis =>
      exact goes.remains_empty inductionHypothesis.1 inductionHypothesis.2

/-- After a text that is accepted every chain runs over its tree until a text is accepted. -/
theorem Goes.runsOver_until_accepted
    {compiled : Compiled}
    (goes : Relation.ReflTransGen (Goes config) session later)
    (consistent : session.Consistent config)
    (isOnly : ∀ former ∈ session.program.compiled, former = compiled) :
    ∀ machine ∈ later.program.machine, machine.RunsOver (config.setting compiled) := by
  suffices kept :
      later.Consistent config ∧ ∀ former ∈ later.program.compiled, former = compiled by
    intro machine isThere
    obtain ⟨former, isFormer, runsOver⟩ := kept.1.machine machine isThere
    rwa [← kept.2 former isFormer]
  induction goes with
  | refl => exact ⟨consistent, isOnly⟩
  | tail _ goes inductionHypothesis =>
      exact ⟨goes.consistent inductionHypothesis.1, goes.remains_compiled inductionHypothesis.2⟩

/--
What every sequence of calls keeps.  A chain is there only with what has been compiled
and runs over it, and there is none next to an error of the compilation.  A call other than
to compile leaves the program as it was if it is refused.  After a text that is refused
nothing can be started or run, and after a text that is accepted all chains run over its
tree, both until the next text is accepted.
-/
theorem reached_lifecycle (reached : Reached config session) :
    session.Consistent config ∧
      (∀ call refusal after,
        call.isCompile = false →
        session.call config call = (.error refusal, after) →
        after = session) ∧
      (∀ source refusal after,
        session.call config (.compile source) = (.error refusal, after) →
        ∀ later, Relation.ReflTransGen (Goes config) after later → later.Idle config) ∧
      ∀ source answer after,
        session.call config (.compile source) = (.ok answer, after) →
        ∃ compiled,
          compiled.Of config.registry source ∧
            after.program.compiled = some compiled ∧
            after.program.machine = none ∧
            ∀ later,
              Relation.ReflTransGen (Goes config) after later →
              ∀ machine ∈ later.program.machine, machine.RunsOver (config.setting compiled) := by
  refine ⟨reached.consistent, fun _ _ _ => refused_unchanged, ?_, ?_⟩
  · intro source refusal after refused later goes
    have led : Led config session (.compile source) (session.call config (.compile source)) :=
      compile_led source
    rw [refused] at led
    cases led with
    | refused _ isOther => cases isOther
    | uncompiled compiled machine => exact Goes.idle_until_accepted goes compiled machine
  · intro source answer after accepted
    have kept := reached.consistent.call (.compile source)
    have led : Led config session (.compile source) (session.call config (.compile source)) :=
      compile_led source
    rw [accepted] at led kept
    generalize isCall : Call.compile source = call at led
    cases led with
    | compiled isOf program =>
        cases isCall
        refine ⟨_, isOf, program ▸ rfl, program ▸ rfl, fun later goes => ?_⟩
        exact Goes.runsOver_until_accepted goes kept (by simp [program])
    | installed isOther => cases isCall; cases isOther
    | ran _ isOther => cases isCall; cases isOther
    | saved => cases isCall
    | stopped => cases isCall

/-- The calls of a program that is compiled, started, and run for one step. -/
def openingCalls : List Call :=
  [.compile "int main() \x7b return 3; \x7d", .start "main", .runSteps 9 0]

/-- A program on the standard registry after some calls. -/
def afterCalls (calls : List Call) : Session :=
  calls.foldl (fun session call => (session.call ⟨.standard, 1000, none⟩ call).2)
    { host := default }

/--
While the program is suspended a start that is refused changes nothing, and once a text
has been refused nothing can be started.
-/
theorem reached_lifecycle_opening :
    let config : Configuration := ⟨.standard, 1000, none⟩
    let session := afterCalls openingCalls
    let refused := session.call config (.compile "int")
    Reached config session ∧
      session.Consistent config ∧
      session.program.isRunning = true ∧
      session.call config (.start "other") =
        (.error (.failed (.unknownEntry "other")), session) ∧
      (∃ refusal, refused.1 = .error refusal) ∧
      refused.2.call config (.start "main") = (.error (.failed .notCompiled), refused.2) := by
  intro config session refused
  have reached : Reached config session := .called _ (.called _ (.called _ (.fresh _)))
  obtain ⟨consistent, unchanged, idle, -⟩ := reached_lifecycle reached
  have isRefused : refused.1.isOk = false := by decide +kernel
  have otherRefused :
      (session.call config (.start "other")).1 = .error (.failed (.unknownEntry "other")) := by
    decide +kernel
  obtain ⟨refusal, isError⟩ : ∃ refusal, refused.1 = .error refusal := by
    cases answer : refused.1 with
    | error refusal => exact ⟨refusal, rfl⟩
    | ok _ => rw [answer] at isRefused; cases isRefused
  refine ⟨reached, consistent, by decide +kernel, ?_, ⟨refusal, isError⟩, ?_⟩
  · exact Prod.ext otherRefused (unchanged _ _ _ rfl (Prod.ext otherRefused rfl))
  · exact (idle _ refusal _ (Prod.ext isError rfl) _ .refl).start "main"

end Session

end BotScript
