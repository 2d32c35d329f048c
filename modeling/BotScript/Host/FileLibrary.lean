import BotScript.Host.Registry

namespace BotScript

/-!
# The file class

A file object keeps its name in the public field `filename` and the number of
its open file in the private field `handle`, which has no value while the file
is closed.  The object owns its open file: the file is closed when the object
is no longer in use.
-/

namespace FileLibrary

/-- The number of the open file of the receiver. -/
def handleOf (call : NativeCall) : Action FileHandle := do
  let cell ← call.fieldCell "handle"
  let world ← get
  let content := world.heap.cell cell
  if content.state != .defined then Action.fail .fileNotOpen
  Action.require .fileNotOpen content.value.int?

/-- Make the receiver the owner of an open file; a file it owned before is closed. -/
def attach (object : ObjectId) (handle : FileHandle) : Action Unit :=
  modify fun world =>
    let owner := world.heap.object object
    let openFiles :=
      match owner.openFile with
      | some former => world.host.openFiles.erase former
      | none => world.host.openFiles
    { heap := world.heap.setObject object { owner with openFile := some handle }
      host := { world.host with openFiles } }

/-- Take the open file from its owner and close it. -/
def detach (object : ObjectId) : Action Unit :=
  modify fun world =>
    let owner := world.heap.object object
    let openFiles :=
      match owner.openFile with
      | some former => world.host.openFiles.erase former
      | none => world.host.openFiles
    { heap := world.heap.setObject object { owner with openFile := none }
      host := { world.host with openFiles } }

/--
The name and mode that the arguments of `open` give.  A single argument that is
a mode goes with the name stored before; any other single argument is a name to read.
-/
def nameAndMode (call : NativeCall) : Action (String × OpenMode) := do
  match call.arguments.length with
  | 0 => Action.fail .missingParameters
  | 1 =>
      let argument ← call.string 0
      match OpenMode.ofText? argument with
      | some mode =>
          let cell ← call.fieldCell "filename"
          let world ← get
          match world.heap.read cell with
          | .ok stored => pure (← Action.ofChecked (world.heap.valueText stored .string), mode)
          | .error _ => Action.fail .fileOpen
      | none => pure (argument, .read)
  | 2 =>
      let mode ← Action.require .badParameter (OpenMode.ofText? (← call.string 1))
      pure (← call.string 0, mode)
  | _ => Action.fail .tooManyParameters

/-- Open a file for the receiver. -/
def openFile (call : NativeCall) : Action Unit := do
  let this ← call.this
  let (name, mode) ← nameAndMode call
  Action.assign (← call.fieldCell "filename") (.str name)
  let handleCell ← call.fieldCell "handle"
  let world ← get
  if (world.heap.cell handleCell).state == .defined then Action.fail .fileOpen
  let (file, files) ← Action.require .fileOpen (world.host.files.open? name mode)
  let (handle, openFiles) := world.host.openFiles.insert file
  Action.modifyHost fun host => { host with files, openFiles }
  attach this handle
  Action.assign handleCell (.int handle)

/-- Run an operation on the open file of the receiver. -/
def withOpen {α : Type}
    (call : NativeCall) (operation : OpenFile → FileAccess → α × OpenFile × FileAccess) :
    Action α := do
  let handle ← handleOf call
  let world ← get
  let file ← Action.require .fileNotOpen (world.host.openFiles.get? handle)
  let (result, file, files) := operation file world.host.files
  Action.modifyHost fun host =>
    { host with files, openFiles := host.openFiles.set handle file }
  pure result

/-- The constructor, with or without a name. -/
def construct : Native where
  name := "file"
  check types := do
    (List.range types.length).forM fun index => ArgumentCheck.string types index
    ArgumentCheck.count types 0 1
    pure .void
  run call := do
    if !call.arguments.isEmpty then
      let name ← call.string 0
      Action.assign (← call.fieldCell "filename") (.str name)
    pure .void

/-- The method that opens the file. -/
def openMethod : Native where
  name := "open"
  check types := do
    if types.length < 1 then throw .missingParameters
    (List.range (min types.length 2)).forM fun index => ArgumentCheck.string types index
    ArgumentCheck.count types 1 2
    pure .boolean
  run call := do
    openFile call
    pure (.bool true)

/-- The method that closes the file. -/
def closeMethod : Native where
  name := "close"
  check types := do
    ArgumentCheck.count types 0 0
    pure .void
  run call := do
    let this ← call.this
    let handle ← handleOf call
    let world ← get
    if (world.host.openFiles.get? handle).isNone then Action.fail .fileNotOpen
    Action.modifyHost fun host => { host with openFiles := host.openFiles.erase handle }
    detach this
    let cell ← call.fieldCell "handle"
    let world ← get
    Action.setHeap (world.heap.setCell cell (Cell.declared .int))
    pure .void

/-- The method that writes a line. -/
def writeMethod : Native where
  name := "writeln"
  check types := do
    ArgumentCheck.string types 0
    ArgumentCheck.count types 1 1
    pure .void
  run call := do
    let text ← call.string 0
    let _ ← call.this
    let done ← withOpen call fun file access => file.write access (text ++ "\n")
    if done then pure .void else Action.fail .writeFailed

/-- The method that reads a line. -/
def readMethod : Native where
  name := "readln"
  check types := do
    ArgumentCheck.count types 0 0
    pure .string
  run call := do
    let line ← withOpen call fun file access =>
      let (line, file) := file.readLine access
      (line, file, access)
    let text ← Action.require .readFailed line
    pure (.str text)

/-- The method that tells whether nothing is left to read. -/
def eofMethod : Native where
  name := "eof"
  check types := do
    ArgumentCheck.count types 0 0
    pure .boolean
  run call := do
    let ended ← withOpen call fun file access =>
      let (ended, file) := file.isAtEnd access
      (ended, file, access)
    pure (.bool ended)

/-- The function that deletes a file. -/
def deleteFile : Native where
  name := "deletefile"
  check types := do
    ArgumentCheck.string types 0
    ArgumentCheck.count types 1 1
    pure .boolean
  run call := do
    let name ← call.string 0
    let world ← get
    let (done, files) := world.host.files.delete name
    Action.modifyHost fun host => { host with files }
    pure (.bool done)

/-- The file that a call of a native of this library opens or deletes, if it does. -/
def fileAsked (native : Native) (call : NativeCall) :
    Action (Option (String × Option OpenMode)) := do
  if native.name == openMethod.name then
    let (name, mode) ← nameAndMode call
    pure (some (name, some mode))
  else if native.name == deleteFile.name then
    pure (some (← call.string 0, none))
  else pure none

/-- The fields of the file class. -/
def fields : List HostField :=
  [⟨"filename", .string, .publicAccess⟩, ⟨"handle", .int, .privateAccess⟩]

/-- The methods of the file class, in order of registration. -/
def methods : List Native :=
  [construct, openMethod, closeMethod, writeMethod, readMethod, eofMethod]

end FileLibrary

end BotScript
