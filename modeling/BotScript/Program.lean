import BotScript.Compile.Program
import BotScript.Host.FileLibrary
import BotScript.Machine.Inspect
import BotScript.Snapshot.Format
import BotScript.Snapshot.Restore
import BotScript.Snapshot.Save
import BotScript.Token.Signature

namespace BotScript

/-!
# Programs

A program is compiled from a text, started at one of its functions, run in
slices, and saved and restored between them.  It has at most one chain, and
compiling again gives the chain up.
-/

/-- What the programs of a host have in common. -/
structure Configuration where
  registry : Registry
  /-- The number of activations that may exist at a time. -/
  callDepth : UInt32 := 1000
  /-- The number of steps of a slice; without it a slice ends with the program. -/
  stepBudget : Option Nat := none

/-- A program text that has been compiled. -/
structure Compiled where
  tokens : TokenList
  tree : Tree
  /-- The signature of all tokens, to which snapshots are tied. -/
  signature : UInt32

/-- A program: its text, its tree and its chain. -/
structure Program where
  source : String := ""
  compiled : Option Compiled := none
  compileError : Option CompileError := none
  machine : Option Machine := none
  /-- Whether the host has asked the program to stop. -/
  stopRequested : Bool := false

/-- Why an operation on a program fails. -/
inductive ProgramError where
  | compile (error : CompileError)
  | notCompiled
  | unknownEntry (name : String)
  | entryParams (name : String)
  | notRunning
  | snapshot (error : SnapshotError)
  deriving Repr, DecidableEq, Inhabited

/-- The message for an error. -/
def ProgramError.message : ProgramError → String
  | .compile error => "compilation failed: " ++ error.text
  | .notCompiled => "no compiled program"
  | .unknownEntry name => "no function `" ++ name ++ "` to start"
  | .entryParams name => "entry point `" ++ name ++ "` takes parameters"
  | .notRunning => "no running program"
  | .snapshot error => error.message

/-- The function without parameters that has a name. -/
def Tree.entryPoint (tree : Tree) (name : String) : Except ProgramError FuncId :=
  let named := tree.functionsNamed name
  match named.find? fun id => (tree.function id).params.isEmpty with
  | some id => .ok id
  | none => .error (if named.isEmpty then .unknownEntry name else .entryParams name)

namespace Program

/-- The tree of a compiled program. -/
def tree? (program : Program) : Option Tree :=
  program.compiled.map (·.tree)

/-- The functions outside classes, in order of declaration. -/
def freeFunctions (program : Program) : List FunctionDef :=
  match program.tree? with
  | some tree => tree.functions.toList.filter fun function => function.owner.isNone
  | none => []

/-- The names of the functions outside classes. -/
def functions (program : Program) : List String :=
  program.freeFunctions.map (·.name)

/-- The names of the functions that a program offers as entries. -/
def externalFunctions (program : Program) : List String :=
  (program.freeFunctions.filter fun function => function.modifiers.isExternal).map (·.name)

/-- The signature of a range of tokens. -/
def signature? (program : Program) (first last : Nat) : Option UInt32 :=
  program.compiled.map fun compiled => compiled.tokens.signature first last

/-- Whether a chain exists that has not ended. -/
def isRunning (program : Program) : Bool :=
  match program.machine with
  | some machine => machine.outcome == .running
  | none => false

/-- The number and the place of the compile error, or of the exception that ended the run. -/
def error? (program : Program) : Option RuntimeError :=
  match program.compileError with
  | some error => some (.ofCode error.code error.span)
  | none => program.machine.bind Machine.error?

/-- The report of the error over the source text. -/
def report? (program : Program) : Option Report :=
  match program.compileError with
  | some error => some (.ofCompileError program.source error)
  | none =>
      (program.machine.bind Machine.error?).map fun error =>
        .ofRuntimeError program.source error

/-- The return value of the entry function. -/
def result? (program : Program) : Option Value :=
  program.machine.bind Machine.result?

/-- The heap of the chain. -/
def heap (program : Program) : Heap :=
  (program.machine.map fun machine => machine.memory.world.heap).getD {}

/-- The number of steps counted since the start. -/
def steps (program : Program) : UInt64 :=
  (program.machine.map Machine.steps).getD 0

/-- The current value of a static field. -/
def staticField? (program : Program) (owner field : String) : Option Value := do
  (← program.machine).staticField? (← program.tree?) owner field

/-- The variables of a function in progress. -/
def stackVars? (program : Program) (level : Nat) : Option StackVars := do
  (← program.machine).stackVars? (← program.tree?) level

/-- Ask the program to stop at its next step. -/
def stop (program : Program) : Program :=
  { program with stopRequested := true }

end Program

/-- A program and the host it runs on. -/
structure Session where
  program : Program := {}
  host : Host

namespace Session

/-- An operation on a session. -/
abbrev Operation := ExceptT ProgramError (StateM Session)

/-- The compiled text, which must be there. -/
def compiled : Operation Compiled := do
  match (← get).program.compiled with
  | some compiled => pure compiled
  | none => throw .notCompiled

/-- The chain, which must be there. -/
def machine : Operation Machine := do
  match (← get).program.machine with
  | some machine => pure machine
  | none => throw .notRunning

/-- Give up the chain; the files it has open are closed. -/
def dropMachine : Operation Unit :=
  modify fun session =>
    match session.program.machine with
    | some machine =>
        { program := { session.program with machine := none }
          host := machine.hostAfterDrop session.host }
    | none => session

/-- Put a chain in the place of the current one. -/
def install (machine : Machine) : Operation Unit := do
  dropMachine
  modify fun session =>
    { session with
      program := { session.program with machine := some machine, stopRequested := false } }

/-- Compile a text in the place of the current one. -/
def compile (config : Configuration) (source : String) : Operation Unit := do
  dropMachine
  let tokens := TokenList.ofSource config.registry.constants source
  let stopRequested := (← get).program.stopRequested
  match BotScript.compile config.registry tokens with
  | .ok tree =>
      let compiled := some ⟨tokens, tree, tokens.wholeSignature⟩
      modify fun session => { session with program := { source, compiled, stopRequested } }
  | .error error =>
      let compileError := some error
      modify fun session => { session with program := { source, compileError, stopRequested } }
      throw (.compile error)

/-- Start a new run at a function without parameters. -/
def start (config : Configuration) (entry : String) : Operation Unit := do
  let tree := (← compiled).tree
  match tree.entryPoint entry with
  | .ok id => install (.start ⟨tree, config.registry, config.callDepth⟩ id (← get).host)
  | .error error => throw error

/-- Run one slice; the fuel bounds the number of turns of the machine. -/
def run (config : Configuration) (fuel : Nat) (budget : Option Nat) : Operation RunStatus := do
  let machine ← machine
  let compiled ← compiled
  let session ← get
  let host := { session.host with stopRequested := session.program.stopRequested }
  let setting : Setting := ⟨compiled.tree, config.registry, config.callDepth⟩
  let (status, machine) := (machine.withHost host).run setting fuel budget
  let machine := machine.closeUnused
  let stopRequested := machine.host.stopRequested
  set ({ program := { session.program with machine := some machine, stopRequested }
         host := { machine.host with stopRequested := false } } : Session)
  pure status

/-- The call of the host that the next step of the chain makes, if it makes one. -/
def nextHostCall? (config : Configuration) (session : Session) : Option (Native × NativeCall) := do
  let machine ← session.program.machine
  let tree ← session.program.tree?
  machine.nextHostCall? ⟨tree, config.registry, config.callDepth⟩

/-- The file that a call of the host opens or deletes, if it does. -/
def fileAsked? (session : Session) (native : Native) (call : NativeCall) :
    Option (String × Option OpenMode) := do
  let machine ← session.program.machine
  let (asked, _) := (FileLibrary.fileAsked native call).run.run machine.memory.world
  asked.toOption.join

/-- The bytes of a snapshot of the suspended chain. -/
def save : Operation (List UInt8) := do
  let compiled ← compiled
  let machine ← machine
  match machine.save compiled.tree compiled.signature with
  | .ok snapshot => pure snapshot.toBytes
  | .error error => throw (.snapshot error)

/-- Put a chain that was saved from the same text in the place of the current one. -/
def restore (bytes : List UInt8) : Operation Unit := do
  let compiled ← compiled
  let host := (← get).host
  let restored := do
    let snapshot ← Snapshot.ofBytes bytes
    Machine.restore compiled.tree snapshot compiled.signature host
  match restored with
  | .ok machine => install machine
  | .error error => throw (.snapshot error)

end Session

end BotScript
