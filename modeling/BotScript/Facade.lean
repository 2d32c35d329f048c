import BotScript.Program

namespace BotScript

/-!
# Calls on a program

A host works on a program by calls: it compiles a text, starts a function, runs slices,
saves and restores, and asks the program to stop.  A call delivers an answer, or is
refused.  A text is compiled only if words can count its bytes.
-/

/-- A call on a program. -/
inductive Call where
  | compile (source : String)
  | start (entry : String)
  /-- Run one slice of the configured number of steps. -/
  | run (fuel : Nat)
  /-- Run one slice of a number of steps. -/
  | runSteps (fuel steps : Nat)
  | save
  | restore (bytes : List UInt8)
  | stop
  deriving Repr, DecidableEq, Inhabited

/-- What a call delivers. -/
inductive Answer where
  | done
  | ran (status : RunStatus)
  | saved (bytes : List UInt8)
  deriving Repr, DecidableEq, Inhabited

/-- Why a call is refused. -/
inductive Refusal where
  /-- The text has more bytes than positions can count. -/
  | tooLarge (bytes : Nat)
  | failed (error : ProgramError)
  deriving Repr, DecidableEq, Inhabited

/-- The message for a refusal. -/
def Refusal.message : Refusal → String
  | .tooLarge bytes => "source of " ++ toString bytes ++ " bytes is too large to compile"
  | .failed error => error.message

/-- Whether a call compiles a text. -/
def Call.isCompile : Call → Bool
  | .compile _ => true
  | _ => false

/-- What a machine runs over once a text has been compiled. -/
def Configuration.setting (config : Configuration) (compiled : Compiled) : Setting :=
  ⟨compiled.tree, config.registry, config.callDepth⟩

namespace Session

/-- What an operation answers, and the session that it leaves. -/
def answering {α : Type} (operation : Operation α) (answer : α → Answer) (session : Session) :
    Except Refusal Answer × Session :=
  match operation.run.run session with
  | (.ok value, after) => (.ok (answer value), after)
  | (.error error, after) => (.error (.failed error), after)

/-- Give up the text, what has been compiled from it, and the chain. -/
def clear : Operation Unit := do
  dropMachine
  modify fun session =>
    { session with program := { stopRequested := session.program.stopRequested } }

/-- The answer of a call, and the session that it leaves. -/
def call (config : Configuration) (session : Session) : Call → Except Refusal Answer × Session
  | .compile source =>
      if UInt32.size ≤ source.utf8ByteSize then
        (.error (.tooLarge source.utf8ByteSize), (clear.run.run session).2)
      else answering (compile config source) (fun _ => .done) session
  | .start entry => answering (start config entry) (fun _ => .done) session
  | .run fuel => answering (run config fuel config.stepBudget) .ran session
  | .runSteps fuel steps => answering (run config fuel (some steps)) .ran session
  | .save => answering save .saved session
  | .restore bytes => answering (restore bytes) (fun _ => .done) session
  | .stop => (.ok .done, { session with program := session.program.stop })

end Session

end BotScript
