import BotScript.Host.MemoryFiles

namespace BotScript

/-!
# Files in a directory

A directory holds folders and files under relative names.  A name reaches its
file as the end of a path, whose length is limited.  The contents of a file live
apart from its name, so a file that is deleted while it is open can still be
read and written.  Readers fetch the contents in blocks.
-/

/-- What a name in a directory stands for. -/
inductive DirectoryEntry where
  | folder
  | file (number : Nat)
  deriving Repr, DecidableEq, Inhabited

/--
The names below a directory and the contents of the files.  The lead is the part
of a path that stands in front of a name.
-/
structure Directory where
  lead : String
  entries : List (List String × DirectoryEntry)
  contents : Array (List UInt8)
  deriving Repr, DecidableEq, Inhabited

/-- A reader of a file, or of a folder, which delivers nothing. -/
structure DirectoryReader where
  source : DirectoryEntry
  position : Nat
  buffer : List UInt8
  deriving Repr, DecidableEq, Inhabited

/-- A writer of a file: at its own position, or at the end if it has none. -/
structure DirectoryWriter where
  number : Nat
  position : Option Nat
  deriving Repr, DecidableEq, Inhabited

namespace Directory

/-- The directory without entries that a lead reaches. -/
def emptyAt (lead : String) : Directory :=
  ⟨lead, [], #[]⟩

/-- The directory without entries in which the program runs. -/
def empty : Directory :=
  emptyAt "./"

/-- The number of bytes at which a part of a path is too long. -/
def partLimit : Nat :=
  256

/-- The number of bytes at which a path is too long. -/
def pathLimit : Nat :=
  4096

/-- The parts of a name between slashes. -/
def splitName : List Char → List (List Char)
  | [] => [[]]
  | first :: rest =>
      match splitName rest with
      | [] => [[first]]
      | part :: parts =>
          if first == '/' then [] :: part :: parts else (first :: part) :: parts

/-- Whether a part of a path stays in the folder that the parts before it reach. -/
def isIdle (part : String) : Bool :=
  part == "" || part == "."

/--
The path a name stands for, and whether the name demands a folder.  Names that
are empty or absolute, that step upwards, or that no file can have, are refused.
-/
def path? (directory : Directory) (name : String) : Option (List String × Bool) :=
  let parts := (splitName name.toList).map String.ofList
  if parts.head? == some "" || name.contains '\x00'
      || pathLimit ≤ directory.lead.utf8ByteSize + name.utf8ByteSize
      || parts.any (fun part => part == ".." || partLimit ≤ part.utf8ByteSize) then
    none
  else some (parts.filter (fun part => !isIdle part), (parts.getLast?.map isIdle).getD false)

/-- What a path stands for; the empty path is the directory itself. -/
def entry? (directory : Directory) (path : List String) : Option DirectoryEntry :=
  if path.isEmpty then some .folder else directory.entries.lookup path

/-- The bytes of a file. -/
def bytes (directory : Directory) (number : Nat) : List UInt8 :=
  (directory.contents[number]?).getD []

/-- Replace the bytes of a file. -/
def setBytes (directory : Directory) (number : Nat) (bytes : List UInt8) : Directory :=
  { directory with contents := directory.contents.setIfInBounds number bytes }

/-- Add a folder. -/
def addFolder (directory : Directory) (path : List String) : Directory :=
  { directory with entries := directory.entries ++ [(path, .folder)] }

/-- The number of the file at a path, which is created if only its folder exists. -/
def fileForWrite? (directory : Directory) (path : List String) : Option (Nat × Directory) :=
  match directory.entry? path with
  | some (.file number) => some (number, directory)
  | some .folder => none
  | none =>
      if directory.entry? path.dropLast == some .folder then
        let number := directory.contents.size
        some (number,
          { directory with
            entries := directory.entries ++ [(path, .file number)]
            contents := directory.contents.push [] })
      else none

/-- Open a file or folder for reading. -/
def openReader? (directory : Directory) (name : String) : Option DirectoryReader :=
  match directory.path? name with
  | some (path, demandsFolder) =>
      match directory.entry? path with
      | some .folder => some ⟨.folder, 0, []⟩
      | some (.file number) => if demandsFolder then none else some ⟨.file number, 0, []⟩
      | none => none
  | none => none

/-- Open a file for writing, which empties it, or for appending. -/
def openWriter?
    (directory : Directory) (name : String) (append : Bool) :
    Option (DirectoryWriter × Directory) :=
  match directory.path? name with
  | some (path, demandsFolder) =>
      if demandsFolder then none
      else
        match directory.fileForWrite? path with
        | some (number, directory) =>
            if append then some (⟨number, none⟩, directory)
            else some (⟨number, some 0⟩, directory.setBytes number [])
        | none => none
  | none => none

/-- Delete the file with a name; the flag tells whether that was possible. -/
def delete (directory : Directory) (name : String) : Bool × Directory :=
  match directory.path? name with
  | some (path, demandsFolder) =>
      match directory.entry? path with
      | some (.file _) =>
          if demandsFolder then (false, directory)
          else
            (true,
              { directory with entries := directory.entries.filter fun entry => entry.1 != path })
      | _ => (false, directory)
  | none => (false, directory)

/-- The bytes of the file with a name. -/
def readBytes? (directory : Directory) (name : String) : Option (List UInt8) :=
  match directory.path? name with
  | some (path, false) =>
      match directory.entry? path with
      | some (.file number) => some (directory.bytes number)
      | _ => none
  | _ => none

/-- The text of the file with a name. -/
def read? (directory : Directory) (name : String) : Option String :=
  (directory.readBytes? name).bind fun bytes => String.fromUTF8? ⟨bytes.toArray⟩

/-- Replace the text of the file with a name, which is created if need be. -/
def insert (directory : Directory) (name text : String) : Directory :=
  match directory.path? name with
  | some (path, false) =>
      match directory.fileForWrite? path with
      | some (number, directory) => directory.setBytes number text.toUTF8.toList
      | none => directory
  | _ => directory

end Directory

namespace DirectoryReader

/-- The number of bytes a reader fetches at once. -/
def blockSize : Nat :=
  8192

/-- A reader whose buffer holds bytes, unless nothing is left; none if the source is a folder. -/
def fill? (reader : DirectoryReader) (directory : Directory) : Option DirectoryReader :=
  match reader.source with
  | .folder => none
  | .file number =>
      if reader.buffer.isEmpty then
        let block := ((directory.bytes number).drop reader.position).take blockSize
        some { reader with position := reader.position + block.length, buffer := block }
      else some reader

/-- Collect bytes up to and with the next line end, in a bounded number of blocks. -/
def collectLine
    (directory : Directory) :
    Nat → DirectoryReader → List UInt8 → Option (List UInt8) × DirectoryReader
  | 0, reader, line => (some line, reader)
  | bound + 1, reader, line =>
      match reader.fill? directory with
      | none => (none, reader)
      | some filled =>
          let upToEnd := filled.buffer.takeWhile (· != 10)
          match filled.buffer.drop upToEnd.length with
          | ending :: behind =>
              (some (line ++ upToEnd ++ [ending]), { filled with buffer := behind })
          | [] =>
              if upToEnd.isEmpty then (some line, filled)
              else collectLine directory bound { filled with buffer := [] } (line ++ upToEnd)

/-- A line without its line feed and the carriage return in front of it. -/
def withoutEnding (line : List UInt8) : List UInt8 :=
  if line.getLast? == some 10 then
    let body := line.dropLast
    if body.getLast? == some 13 then body.dropLast else body
  else line

/-- The next line without its end, if it can be read as text. -/
def readLine (reader : DirectoryReader) (directory : Directory) :
    Option String × DirectoryReader :=
  let size :=
    match reader.source with
    | .folder => 0
    | .file number => (directory.bytes number).length
  let (line, reader) := collectLine directory (size + 2) reader []
  let text := line.bind fun line =>
    (String.fromUTF8? ⟨line.toArray⟩).bind fun _ =>
      String.fromUTF8? ⟨(withoutEnding line).toArray⟩
  (text, reader)

/-- Whether nothing is left to read, and the reader with a filled buffer. -/
def isAtEnd (reader : DirectoryReader) (directory : Directory) : Bool × DirectoryReader :=
  match reader.fill? directory with
  | some filled => (filled.buffer.isEmpty, filled)
  | none => (true, reader)

end DirectoryReader

namespace DirectoryWriter

/-- Bytes with others written over them from a position on; a gap is filled with zeros. -/
def overwrite (bytes : List UInt8) (position : Nat) (added : List UInt8) : List UInt8 :=
  let padded := bytes ++ List.replicate (position - bytes.length) 0
  padded.take position ++ added ++ bytes.drop (position + added.length)

/-- Write a text. -/
def write
    (writer : DirectoryWriter) (directory : Directory) (text : String) :
    DirectoryWriter × Directory :=
  let added := text.toUTF8.toList
  let bytes := directory.bytes writer.number
  if added.isEmpty then (writer, directory)
  else
    match writer.position with
    | none => (writer, directory.setBytes writer.number (bytes ++ added))
    | some position =>
        ({ writer with position := some (position + added.length) },
          directory.setBytes writer.number (overwrite bytes position added))

end DirectoryWriter

end BotScript
