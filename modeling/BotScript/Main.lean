import BotScript.CommandLine

/-!
# The program

A script runs turn by turn.  What it prints appears at once; a file is fetched
when the script is about to open or delete it, and what the script has changed
is stored after every turn that called the host.
-/

open BotScript

/-- The text of a script file, or why it cannot be read. -/
def readScript (path : String) : IO (Except ReadError String) := do
  try
    let bytes ← IO.FS.readBinFile path
    pure ((String.fromUTF8? bytes).elim (.error .invalidText) .ok)
  catch error =>
    match error with
    | .noFileOrDirectory _ _ _ => pure (.error .notFound)
    | .permissionDenied _ _ _ => pure (.error .denied)
    | .invalidArgument _ _ "name too long" => pure (.error Directory.tooLong)
    | .inappropriateType _ code details =>
        -- The code of an error may be negated.
        let number := toString (min code (-code))
        pure (.error (.other (details.capitalize ++ " (os error " ++ number ++ ")")))
    | other => pure (.error (.other other.toString))

/-- The place of a file of a directory. -/
def placeOf (directory : Directory) (path : List String) : String :=
  directory.lead ++ "/".intercalate path

/-- Fetch the file that a script asks for; a file to be written is created. -/
def fetch (name : String) (mode : Option OpenMode) (directory : Directory) : IO Directory := do
  match directory.path? name with
  | some (path, false) =>
      if (directory.entry? path).isSome then return directory
      try
        let place := placeOf directory path
        if mode == some .write || mode == some .append then
          let _ ← IO.FS.Handle.mk place .append
        return directory.provide path (← IO.FS.readBinFile place).data.toList
      catch _ => return directory
  | _ => return directory

/-- Store what has changed between two states of the folder of a script. -/
def storeChanges (before after : Directory) : IO Unit := do
  for (path, bytes) in after.files do
    if before.files.lookup path != some bytes then
      IO.FS.writeBinFile (placeOf after path) ⟨bytes.toArray⟩
  for (path, _) in before.files do
    if (after.entry? path).isNone then IO.FS.removeFile (placeOf before path)

/-- The folder that a session works on. -/
def directoryOf (session : Session) : Directory :=
  match session.host.files with
  | .onDisk directory => directory
  | .inMemory _ => .empty

/-- One turn that calls the host; the files it needs are fetched, and stored when they change. -/
def hostTurn
    (config : Configuration) (native : Native) (call : NativeCall) (session : Session) :
    IO (Except ProgramError RunStatus × Session) := do
  let directory ←
    match session.fileAsked? native call with
    | some (name, mode) => fetch name mode (directoryOf session)
    | none => pure (directoryOf session)
  let session := { session with host := { session.host with files := .onDisk directory } }
  let (result, session) := (Session.run config 1 config.stepBudget).run.run session
  storeChanges directory (directoryOf session)
  for line in session.host.log do
    IO.println line
  pure (result, { session with host := { session.host with log := [] } })

/-- Run a script to its end, turn by turn. -/
partial def runTurns (config : Configuration) (session : Session) :
    IO (Except ProgramError RunStatus × Session) := do
  let (result, session) ←
    match session.nextHostCall? config with
    | some (native, call) => hostTurn config native call session
    | none => pure ((Session.run config 1 config.stepBudget).run.run session)
  match result with
  | .ok .outOfFuel | .ok .paused => runTurns config session
  | result => pure (result, session)

/-- Carry a command out. -/
def execute (command : Command) : IO Response := do
  match command.path? with
  | none => pure (command.respond 0 (.error .notFound) .empty).1
  | some path =>
      match command, ← readScript path with
      | .run _ options, .ok source =>
          let folder := Directory.emptyAt (Directory.leadTo path)
          let (config, started, session) := Command.startScript source options folder
          let (result, session) ←
            match started with
            | .ok _ => runTurns config session
            | .error error => pure (.error error, session)
          pure (Command.conclude path options result session.program [])
      | command, script => pure (command.respond 0 script .empty).1

def main (arguments : List String) : IO UInt32 := do
  let response ← execute (Command.ofArguments arguments)
  (← IO.getStdout).putStr response.output
  (← IO.getStderr).putStr response.complaint
  pure response.exitCode.toUInt32
