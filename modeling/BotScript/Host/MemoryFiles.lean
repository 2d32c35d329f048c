namespace BotScript

/-!
# Files in memory

A store of named texts.  A reader works on the text as it was when the file
was opened; a writer appends to whatever the store holds under the name.
-/

/-- How a file is opened. -/
inductive OpenMode where
  | read
  | write
  | append
  deriving Repr, DecidableEq, Inhabited

/-- The mode that a mode text names. -/
def OpenMode.ofText? : String → Option OpenMode
  | "r" => some .read
  | "w" => some .write
  | "a" => some .append
  | _ => none

/-- Named texts, the most recently created first. -/
structure MemoryFiles where
  entries : List (String × String)
  deriving Repr, DecidableEq, Inhabited

/-- An open file of a store, with the text that a reader has not read yet. -/
structure MemoryFile where
  name : String
  mode : OpenMode
  rest : List Char
  deriving Repr, DecidableEq, Inhabited

namespace MemoryFiles

/-- The store without files. -/
def empty : MemoryFiles :=
  ⟨[]⟩

/-- The text under a name. -/
def get? (files : MemoryFiles) (name : String) : Option String :=
  files.entries.lookup name

/-- The store without the text under a name. -/
def erase (files : MemoryFiles) (name : String) : MemoryFiles :=
  ⟨files.entries.filter fun entry => entry.1 != name⟩

/-- The store with a text under a name. -/
def insert (files : MemoryFiles) (name text : String) : MemoryFiles :=
  ⟨(name, text) :: (files.erase name).entries⟩

/-- Open the file with a name; only reading needs the file to exist. -/
def open? (files : MemoryFiles) (name : String) (mode : OpenMode) :
    Option (MemoryFile × MemoryFiles) :=
  match mode, files.get? name with
  | .read, some text => some (⟨name, .read, text.toList⟩, files)
  | .read, none => none
  | .write, _ => some (⟨name, .write, []⟩, files.insert name "")
  | .append, some _ => some (⟨name, .append, []⟩, files)
  | .append, none => some (⟨name, .append, []⟩, files.insert name "")

/-- Delete the file with a name; the flag tells whether there was one. -/
def delete (files : MemoryFiles) (name : String) : Bool × MemoryFiles :=
  ((files.get? name).isSome, files.erase name)

end MemoryFiles

namespace MemoryFile

/-- Append a text to an open file; a reader cannot write. -/
def write (file : MemoryFile) (files : MemoryFiles) (text : String) : Bool × MemoryFiles :=
  if file.mode == .read then (false, files)
  else (true, files.insert file.name ((files.get? file.name).getD "" ++ text))

/-- A line without a carriage return at its end. -/
def withoutReturn (line : List Char) : List Char :=
  if line.getLast? == some '\r' then line.dropLast else line

/-- The next line without its end, and the file behind it; a writer cannot read. -/
def readLine (file : MemoryFile) : Option String × MemoryFile :=
  if file.mode == .read then
    let line := file.rest.takeWhile (· != '\n')
    let rest := (file.rest.dropWhile (· != '\n')).drop 1
    (some (String.ofList (withoutReturn line)), { file with rest })
  else (none, file)

/-- Whether nothing is left to read. -/
def isAtEnd (file : MemoryFile) : Bool :=
  file.mode != .read || file.rest.isEmpty

end MemoryFile

end BotScript
