import BotScript.Proofs.LineReading
import BotScript.Proofs.SharedFiles

namespace BotScript

/-!
# Lines that were written are read back

Lines that a file writes behind what is stored under its name are read back in order, behind
the lines that were there.  Others may open, write, read, close and delete files in between, as
long as they do not write under that name: what they do leaves the store under the name, and
the files of the writer and the reader, as they are.
-/

/-! ## Lines of a text -/

namespace MemoryFile

/-- The lines that are read until nothing is left. -/
inductive Reads : MemoryFile → List String → Prop where
  | finished
      {file : MemoryFile} :
      file.isAtEnd = true →
      Reads file []
  | line
      {file next : MemoryFile}
      {text : String}
      {rest : List String} :
      file.isAtEnd = false →
      file.readLine = (some text, next) →
      Reads next rest →
      Reads file (text :: rest)

/-- A line that can be told from its ending. -/
structure IsPlainLine (line : String) : Prop where
  oneLine : '\n' ∉ line.toList
  noReturn : line.toList.getLast? ≠ some '\r'

/-- Lines with their ends. -/
def written (lines : List String) : List Char :=
  lines.flatMap fun line => line.toList ++ ['\n']

/-- A text has no line without its end. -/
def IsTerminated (text : List Char) : Prop :=
  text = [] ∨ text.getLast? = some '\n'

section Reading

variable {name : String}

/-- What is left to read is at its end when it is empty. -/
theorem isAtEnd_reader (left : List Char) :
    isAtEnd ⟨name, .read, left⟩ = left.isEmpty :=
  rfl

/-- A reader takes a line, and what stands behind it is left. -/
theorem readLine_reader (left : List Char) :
    readLine ⟨name, .read, left⟩ =
      (some (String.ofList (withoutReturn (left.takeWhile (· != '\n')))),
        ⟨name, .read, (left.dropWhile (· != '\n')).drop 1⟩) :=
  rfl

/-- Reading ends, whatever the text. -/
theorem exists_reads (text : List Char) :
    ∃ lines, Reads ⟨name, .read, text⟩ lines := by
  induction isLength : text.length using Nat.strong_induction_on generalizing text with
  | _ length inductionHypothesis =>
    cases text with
    | nil => exact ⟨[], .finished rfl⟩
    | cons first text =>
        have shorter : (((first :: text).dropWhile (· != '\n')).drop 1).length < length := by
          have most := List.length_dropWhile_le (· != '\n') (first :: text)
          rw [List.length_drop]
          rw [List.length_cons] at most isLength
          omega
        obtain ⟨lines, reads⟩ := inductionHypothesis _ shorter _ rfl
        exact ⟨_, .line rfl (readLine_reader _) reads⟩

/-- The first line of a terminated text, and the terminated text behind it. -/
theorem IsTerminated.split
    {text : List Char}
    (terminated : IsTerminated text)
    (nonempty : text ≠ []) :
    ∃ line behind, text = line ++ '\n' :: behind ∧ '\n' ∉ line ∧ IsTerminated behind := by
  obtain empty | last := terminated
  · exact absurd empty nonempty
  · obtain ⟨line, behind, rfl, absent⟩ :=
      List.eq_append_cons_of_mem (List.mem_of_getLast? last)
    refine ⟨line, behind, rfl, absent, ?_⟩
    cases behind with
    | nil => exact .inl rfl
    | cons first behind =>
        rw [List.getLast?_append_of_ne_nil _ (List.cons_ne_nil _ _),
          List.getLast?_cons_cons] at last
        exact .inr last

/-- The lines of a terminated text come in front of those of what stands behind it. -/
theorem Reads.append
    {text behind : List Char}
    {old new : List String}
    (reads : Reads ⟨name, .read, text⟩ old)
    (terminated : IsTerminated text)
    (rest : Reads ⟨name, .read, behind⟩ new) :
    Reads ⟨name, .read, text ++ behind⟩ (old ++ new) := by
  generalize isFile : (⟨name, .read, text⟩ : MemoryFile) = file at reads
  induction reads generalizing text with
  | finished atEnd =>
      subst isFile
      rw [isAtEnd_reader, List.isEmpty_iff] at atEnd
      subst atEnd
      exact rest
  | line notAtEnd isLine _ inductionHypothesis =>
      subst isFile
      rw [isAtEnd_reader, List.isEmpty_eq_false_iff] at notAtEnd
      obtain ⟨line, left, rfl, absent, terminatedLeft⟩ := terminated.split notAtEnd
      rw [readLine_toFeed absent] at isLine
      cases isLine
      rw [List.append_assoc, List.cons_append]
      refine .line (by simp [isAtEnd_reader]) (readLine_toFeed absent _) ?_
      exact inductionHypothesis terminatedLeft rfl

/-- Written lines are read back. -/
theorem reads_written
    {lines : List String}
    (plain : ∀ line ∈ lines, IsPlainLine line) :
    Reads ⟨name, .read, written lines⟩ lines := by
  induction lines with
  | nil => exact .finished rfl
  | cons line lines inductionHypothesis =>
      obtain ⟨isPlain, plain⟩ := List.forall_mem_cons.mp plain
      have cut : written (line :: lines) = line.toList ++ '\n' :: written lines := by
        simp [written]
      rw [cut]
      refine .line (by simp [isAtEnd_reader]) ?_ (inductionHypothesis plain)
      rw [readLine_toFeed isPlain.oneLine, withoutReturn_eq_self isPlain.noReturn,
        String.ofList_toList]

end Reading

end MemoryFile

/-! ## One's own calls -/

namespace FileLibrary

open Action (Results)

/-- A file that is closed. -/
structure IsClosed (world : World) (this : ObjectId) : Prop where
  isFile : world.heap.IsFile this
  closed : ¬ HasNumber world.heap this

section OwnCalls

variable {call : NativeCall} {before after : World} {this : ObjectId} {name : String}
  {mode : OpenMode} {file : OpenFile} {files : FileAccess} {history : List FileEvent}

/-- A file whose cell stays the same stays closed. -/
theorem Keeps.isClosed
    (keeps : Keeps before after this)
    (isFile : after.heap.IsFile this)
    (closed : IsClosed before this) :
    IsClosed after this := by
  refine ⟨isFile, fun hasNumber => closed.closed ?_⟩
  rw [hasNumber_iff] at hasNumber ⊢
  rw [keeps.handle] at hasNumber
  exact hasNumber

/-- A file can keep the name that is asked for. -/
theorem exists_named
    (receiver : call.receiver = some this)
    (isFile : before.heap.IsFile this)
    (apart : before.heap.FilesApart)
    (asks : Asks call before name mode) :
    ∃ heap, Named call before this name mode heap := by
  obtain ⟨cell, -, isName, -, -⟩ := isFile.cells
  have isText := apart.named this cell isFile isName
  have converted :
      before.heap.convertWhile (some cell) (.str name) (before.heap.cell cell).ty
        (before.heap.cell cell).ty = .ok (.str name) := by
    rw [isText]
    rfl
  exact ⟨_, receiver, asks, cell, isName, Heap.assign_eq_ok_iff.mpr ⟨_, converted, rfl⟩⟩

/-- A closed file is opened if the store opens what is asked for. -/
theorem openMethod_opens
    (accounts : Accounts history before)
    (receiver : call.receiver = some this)
    (closed : IsClosed before this)
    (room : HasRoom before)
    (asks : Asks call before name mode)
    (isOpened : before.host.files.open? name mode = some (file, files)) :
    ∃ after,
      Results before (openMethod.run call) (.ok (.bool true)) after ∧
        Reaches after this (nextNumber before) file ∧ after.host.files = files := by
  have isFile := closed.isFile
  obtain ⟨outcome, after, attempted, opens⟩ := openFile_opens call before
  cases opens with
  | refused unnamed =>
      obtain ⟨heap, named⟩ := exists_named receiver isFile accounts.apart asks
      exact absurd named (unnamed this name mode heap)
  | noHandle named missing =>
      cases receiver.symm.trans named.receiver
      obtain ⟨-, handle, -, isHandle, -⟩ := isFile.cells
      rw [named.object_eq, isHandle] at missing
      cases missing
  | alreadyOpen named isHandle isOpen =>
      cases receiver.symm.trans named.receiver
      rw [named.object_eq] at isHandle
      rw [named.handle_eq isFile isHandle] at isOpen
      exact absurd ⟨_, isHandle, isOpen⟩ closed.closed
  | denied named _ _ isDenied =>
      cases asks.symm.trans named.asks
      cases isOpened.symm.trans isDenied
  | @unnumbered _ _ _ heap cell other access _ named isHandle _ _ unkept =>
      cases receiver.symm.trans named.receiver
      rw [named.object_eq] at isHandle
      have isInt :
          ((register ⟨heap, before.host⟩ this other access).heap.cell cell).ty = .int := by
        change (heap.cell cell).ty = .int
        rw [named.handle_eq isFile isHandle]
        exact accounts.apart.numbered this cell isFile isHandle
      obtain ⟨last, kept⟩ := Heap.assign_int (.inl (by rw [isInt]; rfl)) _
      cases unkept.symm.trans kept
  | @opened _ _ _ heap last cell _ _ named isHandle _ alsoOpened kept =>
      cases receiver.symm.trans named.receiver
      cases asks.symm.trans named.asks
      cases isOpened.symm.trans alsoOpened
      rw [named.object_eq] at isHandle
      have fresh (number : FileHandle)
          (counted : number.toInt ≤ before.host.openFiles.last.toInt) :
          number ≠ nextNumber before := by
        rintro rfl
        rw [toInt_nextNumber accounts.counted room] at counted
        omega
      have isNumber := (named.numbered isFile accounts.apart
        (nextNumber_fits accounts.counted room) isHandle kept).1
      refine ⟨_, attempted.bind (.pure _), ⟨isNumber, named.listed (fun owned => ?_) ?_⟩, rfl⟩
      · refine fresh _ (accounts.given this _ ?_) rfl
        exact accounts.owned this _ isFile owned
      · exact Option.eq_none_iff_forall_ne_some.mpr fun former listed =>
          fresh _ (accounts.listed _ former listed) rfl

end OwnCalls

/-! ## Writing and reading -/

/-- The text that names a mode. -/
def modeText : OpenMode → String
  | .read => "r"
  | .write => "w"
  | .append => "a"

/-- A call of a method without arguments. -/
def plainCall (this : ObjectId) : NativeCall :=
  ⟨some this, [], []⟩

/-- A call that writes a line. -/
def writeCall (this : ObjectId) (line : String) : NativeCall :=
  ⟨some this, [.str line], [.string]⟩

/-- A file is opened, some lines are written, and the file is closed. -/
def writeCalls (writer : ObjectId) (name : String) (mode : OpenMode) (lines : List String) :
    List (Operation × NativeCall) :=
  (.opens, openCall writer name (modeText mode)) ::
    (lines.map fun line => (Operation.writes, writeCall writer line)) ++
      [(.closes, plainCall writer)]

/-- A number of lines is read, each one after a look whether there is any; then another look. -/
def readCalls (reader : ObjectId) : Nat → List (Operation × NativeCall)
  | 0 => [(.ends, plainCall reader)]
  | count + 1 => (.ends, plainCall reader) :: (.reads, plainCall reader) :: readCalls reader count

/-- Lines are there one after the other, and then no more. -/
def readOutcomes : List String → List (Except Fault Value)
  | [] => [.ok (.bool true)]
  | line :: rest => .ok (.bool false) :: .ok (.str line) :: readOutcomes rest

/-- Nothing is open: there is a text under the name, and the writer and the reader are closed. -/
structure Resting (name text : String) (writer reader : ObjectId) (world : World) : Prop where
  accounts : ∃ history, Accounts history world
  stored : Stored world name text
  writer : IsClosed world writer
  reader : IsClosed world reader

/-- A closed file rests, whatever text is stored. -/
theorem closedFile_resting
    {stored : List (String × String)}
    {name text : String}
    (isText : stored.lookup name = some text) :
    Resting name text ⟨0⟩ ⟨0⟩ (closedFile stored) := by
  have isFile := closedFile_isFile stored
  have idle := closedFile_idle stored
  have closed : IsClosed (closedFile stored) ⟨0⟩ := ⟨isFile, (idle.closed ⟨0⟩ isFile).closed⟩
  exact ⟨⟨[], idle.accounts⟩, ⟨⟨stored⟩, rfl, isText⟩, closed, closed⟩

/-- The writer has opened the file, which has a text; the reader is closed. -/
structure Writing (name text : String) (writer reader : ObjectId) (world : World) : Prop where
  accounts : ∃ history, Accounts history world
  stored : Stored world name text
  isFile : world.heap.IsFile writer
  reaches :
    ∃ number mode,
      mode ≠ .read ∧ Reaches world writer number (.inMemory ⟨name, mode, []⟩)
  reader : reader ≠ writer → IsClosed world reader

/-- The reader has opened the file, and has a part of its text left. -/
structure Reading (name : String) (left : List Char) (reader : ObjectId) (world : World) :
    Prop where
  accounts : ∃ history, Accounts history world
  isFile : world.heap.IsFile reader
  reaches : ∃ number, Reaches world reader number (.inMemory ⟨name, .read, left⟩)

section Phases

variable {name text : String} {writer reader : ObjectId} {world : World} {left : List Char}

/-- The writer or the reader. -/
abbrev Either (writer reader this : ObjectId) : Prop :=
  this = writer ∨ this = reader

/-- Others keep the accounts. -/
theorem Aside.accounts
    {mine : ObjectId → Prop}
    {before after : World}
    (aside : Aside name mine before after)
    (accounts : ∃ history, Accounts history before) :
    ∃ history, Accounts history after := by
  obtain ⟨history, accounts⟩ := accounts
  obtain ⟨event, step⟩ := aside.fileStep
  exact ⟨_, step.accounts accounts⟩

/-- Others leave one's own closed files closed. -/
theorem Aside.isClosed
    {mine : ObjectId → Prop}
    {before after : World}
    {this : ObjectId}
    (aside : Aside name mine before after)
    (apart : before.heap.FilesApart)
    (isMine : mine this)
    (closed : IsClosed before this) :
    IsClosed after this := by
  obtain ⟨isFile, keeps⟩ := aside.keeps apart isMine closed.isFile
  exact keeps.isClosed isFile closed

/-- Others let rest what rests. -/
theorem Resting.lasts :
    Lasts name (Either writer reader) (Resting name text writer reader) := by
  rintro before after aside ⟨⟨history, accounts⟩, stored, isWriter, isReader⟩
  exact
    { accounts := aside.accounts ⟨history, accounts⟩
      stored := aside.stored accounts.apart stored
      writer := aside.isClosed accounts.apart (.inl rfl) isWriter
      reader := aside.isClosed accounts.apart (.inr rfl) isReader }

/-- Others do not disturb the writer. -/
theorem Writing.lasts :
    Lasts name (Either writer reader) (Writing name text writer reader) := by
  rintro before after aside
    ⟨⟨history, accounts⟩, stored, isFile, ⟨number, mode, writes, reaches⟩, isReader⟩
  exact
    { accounts := aside.accounts ⟨history, accounts⟩
      stored := aside.stored accounts.apart stored
      isFile := (aside.keeps accounts.apart (.inl rfl) isFile).1
      reaches := ⟨number, mode, writes, aside.reaches accounts (.inl rfl) isFile reaches⟩
      reader := fun differ => aside.isClosed accounts.apart (.inr rfl) (isReader differ) }

/-- Others do not disturb the reader. -/
theorem Reading.lasts :
    Lasts name (Either writer reader) (Reading name left reader) := by
  rintro before after aside ⟨⟨history, accounts⟩, isFile, ⟨number, reaches⟩⟩
  exact
    { accounts := aside.accounts ⟨history, accounts⟩
      isFile := (aside.keeps accounts.apart (.inr rfl) isFile).1
      reaches := ⟨number, aside.reaches accounts (.inr rfl) isFile reaches⟩ }

/-- A call of one's own keeps the accounts, and the files that are closed stay so. -/
theorem own_call
    (operation : Operation)
    {call : NativeCall}
    {outcome : Except Fault Value}
    {this : ObjectId}
    {before after : World}
    (accounts : ∃ history, Accounts history before)
    (receiver : call.receiver = some this)
    (isFile : before.heap.IsFile this)
    (room : operation = .opens → HasRoom before)
    (ran : Results before (operation.native.run call) outcome after) :
    (∃ history, Accounts history after) ∧
      after.heap.IsFile this ∧
      ∀ other, other ≠ this → IsClosed before other → IsClosed after other := by
  obtain ⟨history, accounts⟩ := accounts
  have conduct := Conduct.of_results receiver isFile accounts.apart ran
  have shape := conduct.sameShape isFile accounts.apart
  have step := FileStep.method receiver isFile (fun _ isOpens _ => room isOpens) ran
  refine ⟨⟨_, step.accounts accounts⟩, shape.isFile_iff.mpr isFile, fun other differ closed => ?_⟩
  have keeps := conduct.keeps_other isFile accounts.apart closed.isFile differ
  exact keeps.isClosed (shape.isFile_iff.mpr closed.isFile) closed

/-- The two-part form of the arguments gives the name and the mode. -/
theorem asks_openCall
    (this : ObjectId)
    (mode : OpenMode) :
    Asks (openCall this name (modeText mode)) world name mode := by
  cases mode <;> rfl

/-- The writer opens the file. -/
theorem Resting.opens
    {mode : OpenMode}
    {prior : String}
    (resting : Resting name prior writer reader world)
    (starts : mode = .write ∧ text = "" ∨ mode = .append ∧ text = prior)
    (room : HasRoom world) :
    ∃ after,
      Results world (openMethod.run (openCall writer name (modeText mode))) (.ok (.bool true))
        after ∧
        Writing name text writer reader after := by
  obtain ⟨⟨history, accounts⟩, ⟨files, isMemory, isText⟩, isWriter, isReader⟩ := resting
  obtain ⟨left, isOpened, isLeft⟩ :
      ∃ left, files.open? name mode = some (⟨name, mode, []⟩, left) ∧
        left.get? name = some text := by
    obtain ⟨rfl, rfl⟩ | ⟨rfl, rfl⟩ := starts
    · exact ⟨_, rfl, files.get?_insert name ""⟩
    · exact ⟨files, by simp only [MemoryFiles.open?, isText], isText⟩
  have opened :
      world.host.files.open? name mode =
        some (.inMemory ⟨name, mode, []⟩, .inMemory left) := by
    rw [isMemory]
    exact Option.map_eq_some_iff.mpr ⟨_, isOpened, rfl⟩
  obtain ⟨after, ran, reaches, stored⟩ :=
    openMethod_opens accounts rfl isWriter room (asks_openCall writer mode) opened
  obtain ⟨kept, isFile, others⟩ :=
    own_call .opens ⟨history, accounts⟩ rfl isWriter.isFile (fun _ => room) ran
  exact ⟨after, ran, kept, ⟨left, stored, isLeft⟩, isFile,
    ⟨_, mode, by obtain ⟨rfl, -⟩ | ⟨rfl, -⟩ := starts <;> decide, reaches⟩,
    fun differ => others reader differ isReader⟩

/-- The writer writes a line. -/
theorem Writing.writes
    (writing : Writing name text writer reader world)
    (line : String) :
    ∃ after,
      Results world (writeMethod.run (writeCall writer line)) (.ok .void) after ∧
        Writing name (text ++ (line ++ "\n")) writer reader after := by
  obtain ⟨accounts, ⟨files, isMemory, isText⟩, isFile, ⟨number, mode, writes, reaches⟩, isReader⟩ :=
    writing
  have written :
      (OpenFile.inMemory ⟨name, mode, []⟩).write world.host.files (line ++ "\n") =
        (true, .inMemory ⟨name, mode, []⟩,
          .inMemory (files.insert name (text ++ (line ++ "\n")))) := by
    rw [isMemory]
    simp [OpenFile.write, MemoryFile.write, writes, isText]
  have ran : Results world (writeMethod.run (writeCall writer line)) _ _ :=
    writeMethod_reaches rfl rfl reaches
  rw [written] at ran
  obtain ⟨kept, isFile, others⟩ :=
    own_call .writes accounts rfl isFile (fun isOpens => by cases isOpens) ran
  refine ⟨_, ran, kept, ⟨_, rfl, files.get?_insert name _⟩, isFile,
    ⟨number, mode, writes, reaches.kept, ?_⟩, fun differ => others reader differ (isReader differ)⟩
  exact OpenFiles.get?_set_self _ |>.trans (congrArg _ reaches.listed)

/-- The writer closes the file. -/
theorem Writing.closes
    (writing : Writing name text writer reader world) :
    ∃ after,
      Results world (closeMethod.run (plainCall writer)) (.ok .void) after ∧
        Resting name text writer reader after := by
  obtain ⟨accounts, ⟨files, isMemory, isText⟩, isFile, ⟨number, mode, writes, reaches⟩, isReader⟩ :=
    writing
  obtain ⟨-, cell, -, isHandle, -⟩ := isFile.cells
  have ran : Results world (closeMethod.run (plainCall writer)) (.ok .void) _ :=
    closeMethod_reaches rfl isHandle reaches
  obtain ⟨kept, isStill, others⟩ :=
    own_call .closes accounts rfl isFile (fun isOpens => by cases isOpens) ran
  have closed : IsClosed (closedWorld world writer number cell) writer := by
    obtain ⟨history, accounts⟩ := accounts
    refine ⟨isStill, fun hasNumber => ?_⟩
    obtain ⟨found, isFound, isDefined⟩ := hasNumber_iff.mp hasNumber
    cases (Conduct.handle?_closedWorld isFile accounts.apart isHandle).symm.trans isFound
    cases isDefined
  refine ⟨_, ran, kept, ⟨files, isMemory, isText⟩, closed, ?_⟩
  by_cases same : reader = writer
  · rw [same]
    exact closed
  · exact others reader same (isReader same)

/-- The reader opens the file. -/
theorem Resting.reopens
    (resting : Resting name text writer reader world)
    (room : HasRoom world) :
    ∃ after,
      Results world (openMethod.run (openCall reader name (modeText .read))) (.ok (.bool true))
        after ∧
        Reading name text.toList reader after := by
  obtain ⟨⟨history, accounts⟩, ⟨files, isMemory, isText⟩, isWriter, isReader⟩ := resting
  have opened :
      world.host.files.open? name .read =
        some (.inMemory ⟨name, .read, text.toList⟩, .inMemory files) := by
    rw [isMemory]
    simp only [FileAccess.open?, MemoryFiles.open?, isText]
    rfl
  obtain ⟨after, ran, reaches, -⟩ :=
    openMethod_opens accounts rfl isReader room (asks_openCall reader .read) opened
  obtain ⟨kept, isFile, -⟩ :=
    own_call .opens ⟨history, accounts⟩ rfl isReader.isFile (fun _ => room) ran
  exact ⟨after, ran, kept, isFile, _, reaches⟩

/-- The reader looks whether anything is left. -/
theorem Reading.looks
    (reading : Reading name left reader world) :
    ∃ after,
      Results world (eofMethod.run (plainCall reader)) (.ok (.bool left.isEmpty)) after ∧
        Reading name left reader after := by
  obtain ⟨accounts, isFile, ⟨number, reaches⟩⟩ := reading
  have ran : Results world (eofMethod.run (plainCall reader)) (.ok (.bool left.isEmpty)) _ :=
    eofMethod_reaches rfl reaches
  obtain ⟨kept, isFile, -⟩ :=
    own_call .ends accounts rfl isFile (fun isOpens => by cases isOpens) ran
  exact ⟨_, ran, kept, isFile, number, reaches.kept,
    (OpenFiles.get?_set_self _).trans (congrArg _ reaches.listed)⟩

/-- The reader reads a line. -/
theorem Reading.takes
    {line : String}
    {rest : List Char}
    (reading : Reading name left reader world)
    (isLine : MemoryFile.readLine ⟨name, .read, left⟩ = (some line, ⟨name, .read, rest⟩)) :
    ∃ after,
      Results world (readMethod.run (plainCall reader)) (.ok (.str line)) after ∧
        Reading name rest reader after := by
  obtain ⟨accounts, isFile, ⟨number, reaches⟩⟩ := reading
  have taken :
      (OpenFile.inMemory ⟨name, .read, left⟩).readLine world.host.files =
        (some line, .inMemory ⟨name, .read, rest⟩) := by
    simp only [OpenFile.readLine, isLine]
  have ran : Results world (readMethod.run (plainCall reader)) _ _ :=
    readMethod_reaches rfl reaches
  rw [taken] at ran
  obtain ⟨kept, isFile, -⟩ :=
    own_call .reads accounts rfl isFile (fun isOpens => by cases isOpens) ran
  exact ⟨_, ran, kept, isFile, number, reaches.kept,
    (OpenFiles.get?_set_self _).trans (congrArg _ reaches.listed)⟩

end Phases

/-! ## What is written is read -/

namespace Session

variable {name text : String} {writer reader : ObjectId} {first last : World}
  {outcomes : List (Except Fault Value)} {lines : List String}

/-- The lines that are written come behind the text that was there. -/
theorem writes
    {calls : List (Operation × NativeCall)}
    (session :
      Session name (Either writer reader) first
        ((lines.map fun line => (.writes, writeCall writer line)) ++ calls) outcomes last)
    (writing : Writing name text writer reader first) :
    ∃ between later full,
      outcomes = lines.map (fun _ => .ok .void) ++ later ∧
        full.toList = text.toList ++ MemoryFile.written lines ∧
        Writing name full writer reader between ∧
        Session name (Either writer reader) between calls later last := by
  induction lines generalizing first text outcomes with
  | nil => exact ⟨first, outcomes, text, rfl, (List.append_nil _).symm, writing, session⟩
  | cons line lines inductionHypothesis =>
      obtain ⟨behind, others, rfl, writingBehind, rest⟩ :=
        session.advance Writing.lasts (fun _ writing _ => writing.writes line) writing
      obtain ⟨between, later, full, rfl, isFull, writingLast, left⟩ :=
        inductionHypothesis rest writingBehind
      refine ⟨between, later, full, rfl, isFull.trans ?_, writingLast, left⟩
      simp [MemoryFile.written]

/-- The lines of the text are read, and then there are no more. -/
theorem reads
    {left : List Char}
    (session :
      Session name (Either writer reader) first (readCalls reader lines.length) outcomes last)
    (reading : Reading name left reader first)
    (areLines : MemoryFile.Reads ⟨name, .read, left⟩ lines) :
    outcomes = readOutcomes lines := by
  generalize isFile : (⟨name, .read, left⟩ : MemoryFile) = file at areLines
  induction areLines generalizing first left outcomes with
  | finished atEnd =>
      subst isFile
      obtain ⟨between, later, rfl, -, rest⟩ :=
        session.advance Reading.lasts (fun _ reading _ => reading.looks) reading
      rw [rest.outcomes_nil, readOutcomes, ← atEnd]
      rfl
  | line notAtEnd isLine _ inductionHypothesis =>
      subst isFile
      rw [MemoryFile.readLine_reader] at isLine
      cases isLine
      obtain ⟨looked, others, rfl, readingLooked, rest⟩ :=
        session.advance Reading.lasts (fun _ reading _ => reading.looks) reading
      obtain ⟨taken, later, rfl, readingTaken, rest⟩ :=
        rest.advance Reading.lasts
          (fun _ reading _ => reading.takes (MemoryFile.readLine_reader _)) readingLooked
      rw [inductionHypothesis rest readingTaken rfl, readOutcomes, ← notAtEnd]
      rfl

/--
Lines that are written behind a terminated text, or in place of one, are read back: the reader
gets the lines of the text that was there, then those that were written, and is told before each
of them that there is one, and after the last that there is none.  It does not matter what
others do in between.
-/
theorem written_lines_read_back
    {mode : OpenMode}
    {prior : String}
    {old : List String}
    (resting : Resting name prior writer reader first)
    (terminated : MemoryFile.IsTerminated prior.toList)
    (plain : ∀ line ∈ lines, MemoryFile.IsPlainLine line)
    (isOld :
      mode = .write ∧ old = [] ∨
        mode = .append ∧ MemoryFile.Reads ⟨name, .read, prior.toList⟩ old)
    (session :
      Session name (Either writer reader) first
        (writeCalls writer name mode lines ++
          (.opens, openCall reader name (modeText .read)) ::
            readCalls reader (old ++ lines).length)
        outcomes last) :
    outcomes =
      .ok (.bool true) :: (lines.map fun _ => .ok .void) ++
        .ok .void :: .ok (.bool true) :: readOutcomes (old ++ lines) := by
  obtain ⟨text, starts, isText, areOld⟩ :
      ∃ text, (mode = .write ∧ text = "" ∨ mode = .append ∧ text = prior) ∧
        MemoryFile.IsTerminated text.toList ∧
        MemoryFile.Reads ⟨name, .read, text.toList⟩ old := by
    obtain ⟨isWrite, rfl⟩ | ⟨isAppend, areOld⟩ := isOld
    · exact ⟨"", .inl ⟨isWrite, rfl⟩, .inl rfl, .finished rfl⟩
    · exact ⟨prior, .inr ⟨isAppend, rfl⟩, terminated, areOld⟩
  rw [writeCalls, List.append_assoc, List.cons_append] at session
  obtain ⟨opened, others, rfl, writing, session⟩ :=
    session.advance Resting.lasts (fun _ resting room => resting.opens starts (room rfl)) resting
  obtain ⟨written, others, full, rfl, isFull, writing, session⟩ := session.writes writing
  obtain ⟨closed, others, rfl, resting, session⟩ :=
    session.advance Writing.lasts (fun _ writing _ => writing.closes) writing
  obtain ⟨reopened, others, rfl, reading, session⟩ :=
    session.advance Resting.lasts (fun _ resting room => resting.reopens (room rfl)) resting
  have areLines : MemoryFile.Reads ⟨name, .read, full.toList⟩ (old ++ lines) := by
    rw [isFull]
    exact areOld.append isText (MemoryFile.reads_written plain)
  rw [session.reads reading areLines]
  simp

end Session

end FileLibrary

end BotScript
