import BotScript.Host.Directory

namespace BotScript

/-!
# Script files

A script is found by its path, which may step through folders in both
directions.  The folder of the script is a directory of its own.
-/

/-- Why a script file cannot be read. -/
inductive ReadError where
  | notFound
  | denied
  | invalidText
  | other (reason : String)
  deriving Repr, DecidableEq, Inhabited

/-- The message about a script file that cannot be read. -/
def ReadError.message (path : String) : ReadError → String
  | .notFound => "cannot find file '" ++ path ++ "'"
  | .denied => "permission denied reading '" ++ path ++ "'"
  | .invalidText => "'" ++ path ++ "' contains invalid UTF-8 data"
  | .other reason => "error reading '" ++ path ++ "': " ++ reason

namespace Directory

/-- A path that ends at a folder. -/
def atFolder : ReadError :=
  .other "Is a directory (os error 21)"

/-- A path that is too long, or that has a part that is. -/
def tooLong : ReadError :=
  .other "File name too long (os error 36)"

/-- Whether a path stays where it is or steps upwards, so that it ends at a folder. -/
def climbs (parts : List String) : Bool :=
  parts.all fun part => isIdle part || part == ".."

/--
Follow the parts of a path from a place in the directory.  Of what lies outside
the directory only the folders around it are known.
-/
def follow (directory : Directory) (place : List String) :
    List String → Except ReadError (List String)
  | [] => .ok place
  | part :: rest =>
      match directory.entry? place with
      | none => .error .notFound
      | some (.file _) => .error (.other "Not a directory (os error 20)")
      | some .folder =>
          if isIdle part then directory.follow place rest
          else if part == ".." then
            if place.isEmpty then .error (if climbs rest then atFolder else .notFound)
            else directory.follow place.dropLast rest
          else if partLimit ≤ part.utf8ByteSize then .error tooLong
          else directory.follow (place ++ [part]) rest

/-- The text of the script at a path, and the folder in which it lies. -/
def readScript (directory : Directory) (path : String) :
    Except ReadError (String × List String) := do
  if pathLimit ≤ path.utf8ByteSize then throw tooLong
  let parts := (splitName path.toList).map String.ofList
  if parts.head? == some "" then
    throw (if path != "" && climbs parts then atFolder else .notFound)
  let place ← directory.follow [] parts
  match directory.entry? place with
  | none => throw .notFound
  | some .folder => throw atFolder
  | some (.file number) =>
      match String.fromUTF8? ⟨(directory.bytes number).toArray⟩ with
      | some text => pure (text, place.dropLast)
      | none => throw .invalidText

/--
The lead of the folder in which the script at a path lies: what stands in front
of the script, without idle parts at its end.
-/
def leadTo (path : String) : String :=
  let parts := (splitName path.toList).map String.ofList
  let folders := (parts.dropLast.reverse.dropWhile isIdle).reverse
  if folders.isEmpty then (if parts.head? == some "" then "/" else "./")
  else "/".intercalate folders ++ "/"

/-- A directory with a file at a path, and with the folders that lead to it. -/
def provide (directory : Directory) (path : List String) (bytes : List UInt8) : Directory :=
  let folders := (List.range path.length).filterMap fun depth =>
    let folder := path.take depth
    if (directory.entry? folder).isNone then some (folder, DirectoryEntry.folder) else none
  { directory with
    entries := directory.entries ++ folders ++ [(path, .file directory.contents.size)]
    contents := directory.contents.push bytes }

/-- The files of a directory with their bytes. -/
def files (directory : Directory) : List (List String × List UInt8) :=
  directory.entries.filterMap fun entry =>
    match entry.2 with
    | .file number => some (entry.1, directory.bytes number)
    | .folder => none

/-- The path of an entry below a folder. -/
def pathBelow? : List String → List String → Option (List String)
  | [], path => if path.isEmpty then none else some path
  | _ :: _, [] => none
  | part :: folder, first :: path => if part == first then pathBelow? folder path else none

/-- A folder of a directory as a directory of its own, which a lead reaches. -/
def within (directory : Directory) (lead : String) (folder : List String) : Directory :=
  { directory with
    lead
    entries := directory.entries.filterMap fun entry =>
      (pathBelow? folder entry.1).map fun path => (path, entry.2) }

/-- A directory in which a folder that was taken out of it has changed. -/
def putBack (directory : Directory) (folder : List String) (inner : Directory) : Directory :=
  let others := directory.entries.filter fun entry => (pathBelow? folder entry.1).isNone
  { directory with
    entries := others ++ inner.entries.map fun entry => (folder ++ entry.1, entry.2)
    contents := inner.contents }

end Directory

end BotScript
