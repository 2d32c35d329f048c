import BotScript.Host.ScriptFile
import BotScript.Host.Workbench
import BotScript.Program
import BotScript.Text.Quoted

namespace BotScript

/-!
# The command line

A command compiles, checks, tokenizes or runs one script file.  Scripts reach
the files of the folder in which they lie.
-/

/-- How a script is run. -/
structure RunOptions where
  /-- The function at which the script starts. -/
  entry : String := "main"
  /-- The number of steps of a slice; the script runs slice after slice until it ends. -/
  steps : Option Nat := none
  deriving Repr, DecidableEq, Inhabited

/-- What a command line asks for. -/
inductive Command where
  | help
  | version
  | check (path : String)
  | lex (path : String)
  | run (path : String) (options : RunOptions)
  | unknown (name : String)
  /-- The arguments do not fit the command. -/
  | refused (message : String)
  deriving Repr, DecidableEq, Inhabited

/-- What a command prints, what it complains about, and its exit code. -/
structure Response where
  output : String := ""
  complaint : String := ""
  exitCode : UInt8 := 0
  deriving Repr, DecidableEq, Inhabited

namespace Response

/-- Several lines with their ends. -/
def lines (lines : List String) : String :=
  String.join (lines.map fun line => line ++ "\n")

/-- A response that prints lines. -/
def print (output : List String) : Response :=
  { output := lines output }

/-- A response that fails with a message, after the lines printed so far. -/
def fail (message : String) (output : List String) : Response :=
  { output := lines output, complaint := message ++ "\n", exitCode := 1 }

/-- A response that fails with the report of a program, after the lines printed so far. -/
def failWith (program : Program) (path : String) (output : List String) : Response :=
  match program.report? with
  | some report => fail (report.heading ++ "\n   ╭─[" ++ report.location path ++ "]") output
  | none => { output := lines output, exitCode := 1 }

end Response

namespace Command

/-- The number of steps that an argument gives: digits, with a plus sign or without. -/
def stepCount? (argument : String) : Option Nat :=
  let digits :=
    match argument.toList with
    | '+' :: rest => rest
    | all => all
  if digits.isEmpty || digits.any (fun digit => !digit.isDigit) then none
  else
    let count := digits.foldl (fun count digit => count * 10 + (digit.toNat - '0'.toNat)) 0
    if count < UInt64.size then some count else none

/-- The options behind the path of a script, or the message about a wrong one. -/
def runOptions : RunOptions → List String → Except String RunOptions
  | options, [] => .ok options
  | _, [flag] => .error ("error: unknown or incomplete option '" ++ flag ++ "'")
  | options, flag :: value :: rest =>
      if flag == "--entry" || flag == "-e" then runOptions { options with entry := value } rest
      else if flag == "--steps" || flag == "-s" then
        match stepCount? value with
        | some steps => runOptions { options with steps := some (max steps 1) } rest
        | none => .error ("error: --steps expects a positive number, got '" ++ value ++ "'")
      else .error ("error: unknown or incomplete option '" ++ flag ++ "'")

/-- The command that arguments give. -/
def ofArguments : List String → Command
  | [] => .help
  | name :: rest =>
      match name, rest with
      | "run", [] => .refused "Usage: cbot run <file> [--entry <name>] [--steps <n>]"
      | "run", path :: options =>
          match runOptions {} options with
          | .ok options => .run path options
          | .error message => .refused message
      | "check", [] => .refused "Usage: cbot check <file>"
      | "check", path :: _ => .check path
      | "lex", [] => .refused "Usage: cbot lex <file>"
      | "lex", path :: _ => .lex path
      | "help", _ | "--help", _ | "-h", _ => .help
      | "version", _ | "--version", _ | "-v", _ => .version
      | name, _ => .unknown name

/-- The script file of a command. -/
def path? : Command → Option String
  | .check path | .lex path | .run path _ => some path
  | .help | .version | .unknown _ | .refused _ => none

/-- The help text. -/
def usage : List String :=
  ["CBOT scripting language", "", "Usage: cbot <command> [options]", "", "Commands:",
   "  run <file>       Compile and run a program",
   "  check <file>     Compile only, report the first error",
   "  lex <file>       Tokenize and display tokens",
   "  help             Show this help message",
   "  version          Show version information", "", "Run options:",
   "  --entry <name>   Function to start (default: main)",
   "  --steps <n>      Steps per slice; the run resumes until done", "", "Environment:",
   "  RUST_LOG         Tracing filter, e.g. cbot_eval=debug",
   "  CBOT_LOG_TREE    Print tracing output as a tree"]

/-- The kind of a token in a listing. -/
def kindText : TokenKind → String
  | .symbol symbol => "Keyword(" ++ symbol.label ++ ")"
  | .identifier => "Ident"
  | .number => "Number"
  | .string => "Str"
  | .character => "Char"
  | .constant value => "Constant(" ++ toString value.toInt ++ ")"
  | .endOfText => "End"

/-- List the tokens of a script. -/
def listTokens (path source : String) : Response :=
  let list := TokenList.ofSource Registry.empty.constants source
  let tokens := list.tokens.toList.map fun token =>
    "  " ++ kindText token.kind ++ " " ++ Quoted.text token.text ++ " @ " ++ token.span.text
  .print <|
    ("Tokens for '" ++ path ++ "' (" ++ toString list.size ++ " tokens):") :: tokens
      ++ ["Signature: " ++ hexWord list.wholeSignature]

/-- Compile a script and tell what it holds. -/
def checkScript (path source : String) : Response :=
  let session : Session := { host := { files := .inMemory .empty } }
  let (_, session) := (Session.compile { registry := .standard } source).run.run session
  let program := session.program
  match program.tree? with
  | none => .failWith program path []
  | some tree =>
      let entries := program.externalFunctions
      .print <|
        ("OK: " ++ path ++ " (" ++ toString tree.functions.size ++ " functions, "
          ++ toString tree.classes.size ++ " classes)")
          :: if entries.isEmpty then [] else ["  entry points: " ++ ", ".intercalate entries]

/-- The registry of scripts: the standard library and a function that prints. -/
def scriptRegistry : Registry :=
  Registry.standard.addFunction Workbench.print

/-- Compile a script and start it; the directory is the folder of the script. -/
def startScript (source : String) (options : RunOptions) (directory : Directory) :
    Configuration × Except ProgramError Unit × Session :=
  let config : Configuration := { registry := scriptRegistry, stepBudget := options.steps }
  let operation : Session.Operation Unit := do
    Session.compile config source
    Session.start config options.entry
  (config, operation.run.run { host := { files := .onDisk directory } })

/-- Run slice after slice until the script ends. -/
def runSlices (config : Configuration) (fuel : Nat) : Nat → Session.Operation RunStatus
  | 0 => pure .outOfFuel
  | slices + 1 => do
      match ← Session.run config fuel config.stepBudget with
      | .paused => runSlices config fuel slices
      | status => pure status

/-- The line for the result of a script; nothing is printed for a result without a value. -/
def resultLines (program : Program) (entry : String) : List String :=
  match program.tree?, program.result? with
  | some tree, some result =>
      match (tree.functionsNamed entry).head? with
      | some id =>
          if result == .void then []
          else (program.heap.valueText result (tree.function id).result).toOption.toList
      | none => []
  | _, _ => []

/-- The response to a script that has ended, or that could not be started. -/
def conclude
    (path : String) (options : RunOptions) (result : Except ProgramError RunStatus)
    (program : Program) (printed : List String) :
    Response :=
  match result with
  | .error (.compile _) => .failWith program path printed
  | .error error => .fail ("error: " ++ error.message) printed
  | .ok .finished => .print (printed ++ resultLines program options.entry)
  | .ok .failed => .failWith program path printed
  | .ok _ => { output := Response.lines printed, exitCode := 101 }

/-- Run a script whose folder is a directory. -/
def runScript
    (fuel : Nat) (path source : String) (options : RunOptions) (directory : Directory) :
    Response × Directory :=
  let (config, started, session) := startScript source options directory
  let (result, session) :=
    match started with
    | .ok _ => (runSlices config fuel fuel).run.run session
    | .error error => (.error error, session)
  let directory :=
    match session.host.files with
    | .onDisk directory => directory
    | .inMemory _ => directory
  (conclude path options result session.program session.host.log, directory)

/-- The response to a command, given the text of its script and the folder of the script. -/
def respond
    (command : Command) (fuel : Nat) (script : Except ReadError String) (directory : Directory) :
    Response × Directory :=
  match command, script with
  | .help, _ => (.print usage, directory)
  | .version, _ => (.print ["cbot 0.1.0"], directory)
  | .refused message, _ => (.fail message [], directory)
  | .unknown name, _ => (.fail ("Unknown command: " ++ name ++ "\n") usage, directory)
  | .check path, .ok source => (checkScript path source, directory)
  | .lex path, .ok source => (listTokens path source, directory)
  | .run path options, .ok source => runScript fuel path source options directory
  | .check path, .error error | .lex path, .error error | .run path _, .error error =>
      (.fail (error.message path) [], directory)

/-- The response to a command whose script lies in a directory or in a folder of it. -/
def respondWithin (command : Command) (fuel : Nat) (directory : Directory) :
    Response × Directory :=
  match command.path? with
  | none => command.respond fuel (.error .notFound) directory
  | some path =>
      match directory.readScript path with
      | .error error => command.respond fuel (.error error) directory
      | .ok (source, folder) =>
          let inner := directory.within (Directory.leadTo path) folder
          let (response, inner) := command.respond fuel (.ok source) inner
          (response, directory.putBack folder inner)

end Command

end BotScript
