import BotScript.Host.Directory

namespace BotScript

/-!
# Access to files

Scripts reach files through one interface over either kind of store.
-/

/-- Where files live. -/
inductive FileAccess where
  | inMemory (files : MemoryFiles)
  | onDisk (directory : Directory)
  deriving Repr, DecidableEq, Inhabited

/-- A file that is open. -/
inductive OpenFile where
  | inMemory (file : MemoryFile)
  | diskReader (reader : DirectoryReader)
  | diskWriter (writer : DirectoryWriter)
  deriving Repr, DecidableEq, Inhabited

namespace FileAccess

/-- Open the file with a name. -/
def open? (access : FileAccess) (name : String) (mode : OpenMode) :
    Option (OpenFile × FileAccess) :=
  match access with
  | .inMemory files =>
      (files.open? name mode).map fun (file, files) => (.inMemory file, .inMemory files)
  | .onDisk directory =>
      match mode with
      | .read => (directory.openReader? name).map fun reader => (.diskReader reader, access)
      | .write | .append =>
          (directory.openWriter? name (mode == .append)).map fun (writer, directory) =>
            (.diskWriter writer, .onDisk directory)

/-- Delete the file with a name; the flag tells whether that was possible. -/
def delete (access : FileAccess) (name : String) : Bool × FileAccess :=
  match access with
  | .inMemory files =>
      let (done, files) := files.delete name
      (done, .inMemory files)
  | .onDisk directory =>
      let (done, directory) := directory.delete name
      (done, .onDisk directory)

/-- The text of the file with a name. -/
def contents? (access : FileAccess) (name : String) : Option String :=
  match access with
  | .inMemory files => files.get? name
  | .onDisk directory => directory.read? name

/-- Create or replace the file with a name. -/
def insert (access : FileAccess) (name text : String) : FileAccess :=
  match access with
  | .inMemory files => .inMemory (files.insert name text)
  | .onDisk directory => .onDisk (directory.insert name text)

end FileAccess

namespace OpenFile

/-- Write a text; the flag tells whether that was possible. -/
def write (file : OpenFile) (access : FileAccess) (text : String) :
    Bool × OpenFile × FileAccess :=
  match file, access with
  | .inMemory memory, .inMemory files =>
      let (done, files) := memory.write files text
      (done, file, .inMemory files)
  | .diskWriter writer, .onDisk directory =>
      let (writer, directory) := writer.write directory text
      (true, .diskWriter writer, .onDisk directory)
  | _, _ => (false, file, access)

/-- The next line without its end. -/
def readLine (file : OpenFile) (access : FileAccess) : Option String × OpenFile :=
  match file, access with
  | .inMemory memory, _ =>
      let (line, memory) := memory.readLine
      (line, .inMemory memory)
  | .diskReader reader, .onDisk directory =>
      let (line, reader) := reader.readLine directory
      (line, .diskReader reader)
  | _, _ => (none, file)

/-- Whether nothing is left to read. -/
def isAtEnd (file : OpenFile) (access : FileAccess) : Bool × OpenFile :=
  match file, access with
  | .inMemory memory, _ => (memory.isAtEnd, file)
  | .diskReader reader, .onDisk directory =>
      let (ended, reader) := reader.isAtEnd directory
      (ended, .diskReader reader)
  | _, _ => (true, file)

end OpenFile

end BotScript
