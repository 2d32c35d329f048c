import BotScript.Proofs.FileHandles

namespace BotScript

/-!
# What methods of files do

A method of a file changes the name or the number of its receiver, the open files under the
number that the receiver has, and the store.  Other files keep their numbers, and what they
own.
-/

/-! ## Files apart from each other -/

/--
Files keep their names in cells of texts and their numbers in cells of whole numbers, which are
no cells of any other file.  Methods find both by their names in the class of the receiver: a
class that hides them behind fields of its own, of other types, has no such files.
-/
structure Heap.FilesApart (heap : Heap) : Prop where
  named :
    ∀ this cell, heap.IsFile this → (heap.object this).fieldNamed? "filename" = some cell →
      (heap.cell cell).ty = .string
  numbered :
    ∀ this cell, heap.IsFile this → (heap.object this).fieldNamed? "handle" = some cell →
      (heap.cell cell).ty = .int
  apart :
    ∀ this other, heap.IsFile this → heap.IsFile other → this ≠ other → ∀ cell name,
      (heap.object this).fieldNamed? "handle" = some cell →
        (heap.object other).fieldNamed? name ≠ some cell

namespace Heap

/-- Files stay apart while heaps keep their shape. -/
theorem SameShape.filesApart
    {before after : Heap}
    (same : SameShape before after)
    (files : before.FilesApart) :
    after.FilesApart where
  named this cell isFile isName := by
    rw [same.types]
    rw [same.fieldNamed?] at isName
    exact files.named this cell (same.isFile_iff.mp isFile) isName
  numbered this cell isFile isHandle := by
    rw [same.types]
    rw [same.fieldNamed?] at isHandle
    exact files.numbered this cell (same.isFile_iff.mp isFile) isHandle
  apart this other isFile isOther differ cell name isHandle := by
    rw [same.fieldNamed?] at isHandle ⊢
    exact files.apart this other (same.isFile_iff.mp isFile) (same.isFile_iff.mp isOther) differ
      cell name isHandle

/-- A replaced cell of the same type keeps the shape. -/
theorem SameShape.setCell
    {heap : Heap}
    {id : CellId}
    {cell : Cell}
    (sameType : cell.ty = (heap.cell id).ty) :
    heap.SameShape (heap.setCell id cell) := by
  refine ⟨fun _ => rfl, fun _ => rfl, fun other => ?_⟩
  by_cases same : other = id
  · subst same
    by_cases known : other.index < heap.cells.size
    · rw [cell_setCell known, sameType]
    · simp [Heap.cell, Heap.setCell, known]
  · rw [cell_setCell_of_ne same]

/-- A cell that is not the default is on the heap. -/
theorem known_of_cell
    {heap : Heap}
    {id : CellId}
    (typed : (heap.cell id).ty ≠ (default : Cell).ty) :
    id.index < heap.cells.size := by
  by_contra unknown
  exact typed (by rw [Heap.cell, Array.getElem?_eq_none (Nat.le_of_not_lt unknown)]; rfl)

/-- A file is on the heap. -/
theorem IsFile.known
    {heap : Heap}
    {this : ObjectId}
    (isFile : heap.IsFile this) :
    this.index < heap.objects.size := by
  by_contra unknown
  have isDefault : heap.object this = default := by
    rw [Heap.object, Array.getElem?_eq_none (Nat.le_of_not_lt unknown)]
    rfl
  have inherits := isFile.inherits
  rw [isDefault] at inherits
  cases inherits

end Heap

namespace FileLibrary

open Action (Results)

/-- A file has the number and the open file that it had. -/
structure Keeps (before after : World) (this : ObjectId) : Prop where
  isFile : before.heap.IsFile this
  handle : handle? after.heap this = handle? before.heap this
  owned : (after.heap.object this).openFile = (before.heap.object this).openFile

/-- A file that keeps the cell of its number keeps its number. -/
theorem Keeps.number
    {before after : World}
    {this : ObjectId}
    (keeps : Keeps before after this) :
    number? after.heap this = number? before.heap this := by
  rw [number?, number?, keeps.handle]

section Cells

variable {before after : Heap} {this other : ObjectId} {cell : CellId} {value : Value}

/-- A store into a cell of one file leaves the numbers of the others. -/
theorem handle?_assign
    (files : before.FilesApart)
    (isFile : before.IsFile this)
    (isOther : before.IsFile other)
    (differ : other ≠ this)
    {name : String}
    (isField : (before.object this).fieldNamed? name = some cell)
    (assigned : before.assign cell value = .ok after) :
    handle? after other = handle? before other := by
  refine handle?_congr (.assign assigned) fun handle isHandle => ?_
  refine Heap.cell_assign_of_ne assigned fun same => ?_
  subst same
  exact files.apart other this isOther isFile differ handle name isHandle isField

/-- A name that is kept leaves the numbers of all files. -/
theorem handle?_assign_name
    (files : before.FilesApart)
    (isFile : before.IsFile this)
    (isOther : before.IsFile other)
    (isName : (before.object this).fieldNamed? "filename" = some cell)
    (assigned : before.assign cell value = .ok after) :
    handle? after other = handle? before other := by
  by_cases same : other = this
  · subst same
    obtain ⟨nameCell, handle, isNameCell, isHandle, differ⟩ := isFile.cells
    cases isNameCell.symm.trans isName
    refine handle?_congr (.assign assigned) fun found isFound => ?_
    cases isHandle.symm.trans isFound
    exact Heap.cell_assign_of_ne assigned (Ne.symm differ)
  · exact handle?_assign files isFile isOther same isName assigned

/-- A number that fits in 32 bits is kept as it is. -/
theorem number?_assign_int
    (files : before.FilesApart)
    (isFile : before.IsFile this)
    (isHandle : (before.object this).fieldNamed? "handle" = some cell)
    {number : Int64}
    (fits : InSigned 32 number.toInt)
    (assigned : before.assign cell (.int number) = .ok after) :
    number? after this = some number := by
  have isInt : (before.cell cell).ty = .int := files.numbered this cell isFile isHandle
  have known : cell.index < before.cells.size :=
    Heap.known_of_cell (by rw [isInt]; decide)
  obtain ⟨content, converted, rfl⟩ := Heap.assign_eq_ok_iff.mp assigned
  rw [isInt] at converted
  cases converted
  have isSame : Ty.wrap .int number = number :=
    Int64.toInt_inj.mp ((Ty.WrapsAt.int.toInt_wrap number).trans (fits.bmod_eq .int))
  have found : ((before.setCell cell
      ⟨(before.cell cell).ty, .int (Ty.wrap .int number), .defined⟩).object this).fieldNamed?
        "handle" = some cell :=
    isHandle
  rw [number?_eq found, Heap.cell_setCell known, if_pos rfl, isSame]
  rfl

end Cells

/-- A name that is kept leaves all files their numbers and what they own. -/
theorem Keeps.of_name
    {before : World}
    {heap : Heap}
    {this other : ObjectId}
    {cell : CellId}
    {name : String}
    (files : before.heap.FilesApart)
    (isFile : before.heap.IsFile this)
    (isOther : before.heap.IsFile other)
    (isName : (before.heap.object this).fieldNamed? "filename" = some cell)
    (stored : before.heap.assign cell (.str name) = .ok heap) :
    Keeps before ⟨heap, before.host⟩ other :=
  ⟨isOther, handle?_assign_name files isFile isOther isName stored,
    congrArg _ (Heap.object_congr (Heap.assign_elsewhere stored).1 other)⟩

/-! ## Methods -/

/-- The methods of a file. -/
inductive Operation where
  | construct
  | opens
  | closes
  | writes
  | reads
  | ends
  deriving Repr, DecidableEq

/-- The native that implements a method. -/
def Operation.native : Operation → Native
  | .construct => FileLibrary.construct
  | .opens => openMethod
  | .closes => closeMethod
  | .writes => writeMethod
  | .reads => readMethod
  | .ends => eofMethod

/-- There are no other methods. -/
example : methods = [.construct, .opens, .closes, .writes, .reads, .ends].map Operation.native :=
  rfl

/-- A method works on the open file of its receiver. -/
def Operation.NeedsOpen (operation : Operation) : Prop :=
  operation ≠ .construct ∧ operation ≠ .opens

/-- What a method of a file can do. -/
inductive Conduct (call : NativeCall) (before : World) (this : ObjectId) :
    Operation → Except Fault Value → World → Prop where
  /-- Nothing changes. -/
  | stays
      {operation : Operation}
      {outcome : Except Fault Value} :
      (operation = .opens ∨ operation = .closes → ∃ fault, outcome = .error fault) →
      Conduct call before this operation outcome before
  /-- The name of the file is kept. -/
  | named
      {operation : Operation}
      {outcome : Except Fault Value}
      {cell : CellId}
      {name : String}
      {heap : Heap} :
      (operation = .opens → ∃ fault, outcome = .error fault) →
      operation ≠ .closes →
      (before.heap.object this).fieldNamed? "filename" = some cell →
      before.heap.assign cell (.str name) = .ok heap →
      Conduct call before this operation outcome ⟨heap, before.host⟩
  /-- The file is opened under the name that is asked for. -/
  | opened
      {name : String}
      {mode : OpenMode}
      {heap last : Heap}
      {cell : CellId}
      {file : OpenFile}
      {files : FileAccess} :
      Named call before this name mode heap →
      (before.heap.object this).fieldNamed? "handle" = some cell →
      before.host.files.open? name mode = some (file, files) →
      (register ⟨heap, before.host⟩ this file files).heap.assign cell
        (.int (before.host.openFiles.insert file).1) = .ok last →
      Conduct call before this .opens (.ok (.bool true))
        ⟨last, (register ⟨heap, before.host⟩ this file files).host⟩
  /-- A line is written. -/
  | wrote
      {outcome : Except Fault Value}
      {number : FileHandle}
      {file : OpenFile}
      {text : String} :
      Reaches before this number file →
      Conduct call before this .writes outcome
        (before.setFile number (file.write before.host.files text).2.1
          (file.write before.host.files text).2.2)
  /-- The file is looked at. -/
  | looked
      {operation : Operation}
      {outcome : Except Fault Value}
      {number : FileHandle}
      {file changed : OpenFile} :
      operation = .reads ∨ operation = .ends →
      Reaches before this number file →
      Conduct call before this operation outcome (before.setFile number changed before.host.files)
  /-- The file is closed. -/
  | closed
      {number : FileHandle}
      {file : OpenFile}
      {cell : CellId} :
      (before.heap.object this).fieldNamed? "handle" = some cell →
      Reaches before this number file →
      Conduct call before this .closes (.ok .void) (closedWorld before this number cell)

section Methods

variable {call : NativeCall} {this : ObjectId} {before : World}

/-- A method that needs an open file fails without one, and changes nothing. -/
theorem Operation.run_closed
    {operation : Operation}
    (needs : operation.NeedsOpen)
    (receiver : call.receiver = some this)
    (isFile : before.heap.IsFile this)
    (closed : ∀ number file, ¬ Reaches before this number file) :
    ∃ fault,
      Results before (operation.native.run call) (.error fault) before ∧
        (fault = .error .fileNotOpen ∨
          operation = .writes ∧ Results before (call.string 0) (.error fault) before) := by
  cases operation with
  | construct => exact absurd rfl needs.1
  | opens => exact absurd rfl needs.2
  | closes =>
      refine ⟨_, Results.bind (NativeCall.this_results receiver) ?_, .inl rfl⟩
      cases isNumber : number? before.heap this with
      | none => exact (handleOf_closed receiver isFile isNumber).stop
      | some number =>
          have unlisted := unlisted_of_closed closed isNumber
          refine (handleOf_number receiver isNumber).bind (Results.get.bind ?_)
          dsimp only
          rw [if_pos (by simp [unlisted])]
          exact (Results.fail _).stop
  | writes =>
      obtain ⟨fault, failed⟩ | ⟨text, isText⟩ := Action.Looks.results (call.string 0) before
      · exact ⟨fault, Results.stop failed, .inr ⟨rfl, failed⟩⟩
      · exact ⟨_, isText.bind (Results.bind (NativeCall.this_results receiver)
          (withOpen_closed receiver isFile closed).stop), .inl rfl⟩
  | reads => exact ⟨_, Results.stop (withOpen_closed receiver isFile closed), .inl rfl⟩
  | ends => exact ⟨_, Results.stop (withOpen_closed receiver isFile closed), .inl rfl⟩

/-- The constructor keeps a name, or does nothing. -/
theorem construct_conduct
    (receiver : call.receiver = some this)
    (isFile : before.heap.IsFile this) :
    ∃ outcome after,
      Results before (construct.run call) outcome after ∧
        Conduct call before this .construct outcome after := by
  have stays {outcome : Except Fault Value} :
      Conduct call before this .construct outcome before :=
    .stays fun isOther => by cases isOther <;> contradiction
  unfold construct
  dsimp only
  by_cases unnamed : call.arguments.isEmpty = true
  · rw [if_neg (by simp [unnamed])]
    exact ⟨_, _, .pure _, stays⟩
  · rw [if_pos (by simpa using unnamed)]
    obtain ⟨fault, failed⟩ | ⟨name, isText⟩ := Action.Looks.results (call.string 0) before
    · exact ⟨_, _, failed.stop, stays⟩
    · obtain ⟨cell, -, isName, -, -⟩ := isFile.cells
      have isCell : Results before (call.fieldCell "filename") (.ok cell) before :=
        NativeCall.fieldCell_results receiver isName
      cases stored : before.heap.assign cell (.str name) with
      | error fault =>
          exact ⟨_, _, isText.bind (isCell.bind (Results.assign_error stored).stop), stays⟩
      | ok heap =>
          refine ⟨_, _, isText.bind (isCell.bind ((Results.assign stored).bind (.pure _))), ?_⟩
          exact .named (fun isOpens => by cases isOpens) (fun isCloses => by cases isCloses) isName
            stored

/-- The method that opens a file does so, or keeps a name, or does nothing. -/
theorem openMethod_conduct
    (receiver : call.receiver = some this)
    (isFile : before.heap.IsFile this)
    (files : before.heap.FilesApart) :
    ∃ outcome after,
      Results before (openMethod.run call) outcome after ∧
        Conduct call before this .opens outcome after := by
  obtain ⟨outcome, after, attempted, opens⟩ := openFile_opens call before
  cases outcome with
  | error fault =>
      have numbered : CanBeNumbered before.heap this := fun cell isHandle =>
        .inl (by rw [files.numbered this cell isFile isHandle]; rfl)
      have onlyNamed := opens.onlyNamed receiver isFile numbered
      refine ⟨_, _, attempted.stop, ?_⟩
      obtain ⟨heap, host⟩ := after
      cases onlyNamed.host
      obtain same | ⟨name, mode, named, -⟩ := onlyNamed.name
      · cases same
        exact .stays fun _ => ⟨fault, rfl⟩
      · obtain ⟨cell, isName, stored⟩ := named.stored
        exact .named (fun _ => ⟨fault, rfl⟩) (fun isCloses => by cases isCloses) isName stored
  | ok done =>
      refine ⟨_, _, attempted.bind (.pure _), ?_⟩
      cases opens with
      | opened named isHandle isClosed isOpened kept =>
          cases receiver.symm.trans named.receiver
          rw [named.object_eq] at isHandle
          exact .opened named isHandle isOpened kept

/-- A method of a file does what methods can do. -/
theorem Operation.run_conduct
    (operation : Operation)
    (receiver : call.receiver = some this)
    (isFile : before.heap.IsFile this)
    (files : before.heap.FilesApart) :
    ∃ outcome after,
      Results before (operation.native.run call) outcome after ∧
        Conduct call before this operation outcome after := by
  by_cases needs : operation.NeedsOpen
  · by_cases closed : ∀ number file, ¬ Reaches before this number file
    · obtain ⟨fault, failed, -⟩ := operation.run_closed needs receiver isFile closed
      exact ⟨_, _, failed, .stays fun _ => ⟨fault, rfl⟩⟩
    · push Not at closed
      obtain ⟨number, file, reaches⟩ := closed
      cases operation with
      | construct => exact absurd rfl needs.1
      | opens => exact absurd rfl needs.2
      | closes =>
          obtain ⟨-, cell, -, isHandle, -⟩ := isFile.cells
          exact ⟨_, _, closeMethod_reaches receiver isHandle reaches, .closed isHandle reaches⟩
      | writes =>
          obtain ⟨fault, failed⟩ | ⟨text, isText⟩ := Action.Looks.results (call.string 0) before
          · exact ⟨_, _, Results.stop failed, .stays fun _ => ⟨fault, rfl⟩⟩
          · exact ⟨_, _, writeMethod_reaches receiver isText reaches, .wrote reaches⟩
      | reads => exact ⟨_, _, readMethod_reaches receiver reaches, .looked (.inl rfl) reaches⟩
      | ends => exact ⟨_, _, eofMethod_reaches receiver reaches, .looked (.inr rfl) reaches⟩
  · obtain rfl | rfl : operation = .construct ∨ operation = .opens := by
      unfold NeedsOpen at needs
      tauto
    · exact construct_conduct receiver isFile
    · exact openMethod_conduct receiver isFile files

/-- What has come of a method is among what methods can do. -/
theorem Conduct.of_results
    {operation : Operation}
    {outcome : Except Fault Value}
    {after : World}
    (receiver : call.receiver = some this)
    (isFile : before.heap.IsFile this)
    (files : before.heap.FilesApart)
    (ran : Results before (operation.native.run call) outcome after) :
    Conduct call before this operation outcome after := by
  obtain ⟨_, _, alsoRan, conduct⟩ := operation.run_conduct receiver isFile files
  cases ran.symm.trans alsoRan
  exact conduct

end Methods

/-! ## What methods leave alone -/

namespace Conduct

variable {call : NativeCall} {before after : World} {this other : ObjectId}
  {operation : Operation} {outcome : Except Fault Value}

/-- To give an opened file to an instance keeps the shape of the heap. -/
theorem sameShape_given
    (heap : Heap)
    (file : OpenFile)
    (files : FileAccess) :
    heap.SameShape (register ⟨heap, before.host⟩ this file files).heap :=
  @World.sameShape_setOwned
    ⟨heap, { before.host with files, openFiles := (before.host.openFiles.insert file).2 }⟩ this
    (some (before.host.openFiles.insert file).1)

/-- So does all that comes before the number is kept. -/
theorem sameShape_opened
    {name : String}
    {mode : OpenMode}
    {heap : Heap}
    (named : Named call before this name mode heap)
    (file : OpenFile)
    (files : FileAccess) :
    before.heap.SameShape (register ⟨heap, before.host⟩ this file files).heap := by
  obtain ⟨_, -, stored⟩ := named.stored
  exact (Heap.SameShape.assign stored).trans (sameShape_given heap file files)

/-- Methods keep the shape of the heap. -/
theorem sameShape
    (conduct : Conduct call before this operation outcome after)
    (isFile : before.heap.IsFile this)
    (files : before.heap.FilesApart) :
    before.heap.SameShape after.heap := by
  cases conduct with
  | stays => exact .refl
  | named _ _ _ stored => exact .assign stored
  | opened named _ _ kept => exact (sameShape_opened named _ _).trans (.assign kept)
  | wrote => exact .refl
  | looked => exact .refl
  | closed isHandle =>
      refine World.sameShape_setOwned.trans (.setCell ?_)
      exact (files.numbered this _ isFile isHandle).symm

/-- The cell of the number is as it was declared when the file has been closed. -/
theorem handle?_closedWorld
    {number : FileHandle}
    {cell : CellId}
    (isFile : before.heap.IsFile this)
    (files : before.heap.FilesApart)
    (isHandle : (before.heap.object this).fieldNamed? "handle" = some cell) :
    handle? (closedWorld before this number cell).heap this = some (Cell.declared .int) := by
  have known : cell.index < before.heap.cells.size :=
    Heap.known_of_cell (by rw [files.numbered this cell isFile isHandle]; decide)
  have isSame :
      ((closedWorld before this number cell).heap.object this).fieldNamed? "handle" = some cell :=
    (World.sameShape_setOwned.fieldNamed? this "handle").trans isHandle
  rw [handle?_eq isSame]
  exact congrArg some (Heap.cell_setCell known _)

/-- Other files keep their numbers and what they own. -/
theorem keeps_other
    (conduct : Conduct call before this operation outcome after)
    (isFile : before.heap.IsFile this)
    (files : before.heap.FilesApart)
    (isOther : before.heap.IsFile other)
    (differ : other ≠ this) :
    Keeps before after other := by
  cases conduct with
  | stays => exact ⟨isOther, rfl, rfl⟩
  | named _ _ isName stored => exact .of_name files isFile isOther isName stored
  | @opened name mode heap last cell file access named isHandle isOpened kept =>
      obtain ⟨nameCell, isName, stored⟩ := named.stored
      have shape := sameShape_opened named file access
      refine ⟨isOther, ?_, ?_⟩
      · calc
          handle? last other
          _ = handle? (register ⟨heap, before.host⟩ this file access).heap other :=
              handle?_assign (shape.filesApart files) (shape.isFile_iff.mpr isFile)
                (shape.isFile_iff.mpr isOther) differ
                ((shape.fieldNamed? this "handle").trans isHandle) kept
          _ = handle? heap other := handle?_congr (sameShape_given heap file access) fun _ _ => rfl
          _ = handle? before.heap other := handle?_assign files isFile isOther differ isName stored
      · have isSame : last.object other = before.heap.object other :=
          (Heap.object_congr (Heap.assign_elsewhere kept).1 other).trans
            ((World.object_setOwned_of_ne differ).trans (named.object_eq other))
        exact congrArg _ isSame
  | wrote => exact ⟨isOther, rfl, rfl⟩
  | looked => exact ⟨isOther, rfl, rfl⟩
  | closed isHandle =>
      refine ⟨isOther, ?_, congrArg _ (World.object_setOwned_of_ne differ)⟩
      have isInt := files.numbered this _ isFile isHandle
      refine handle?_congr (World.sameShape_setOwned.trans (.setCell isInt.symm))
        fun found isFound => ?_
      refine Heap.cell_setCell_of_ne (fun same => ?_) _
      subst same
      exact files.apart other this isOther isFile differ found "handle" isFound isHandle

/-- Where no file is opened, files keep what they have, and the host stays. -/
theorem unopened
    {fault : Fault}
    (conduct : Conduct call before this .opens (.error fault) after)
    (isFile : before.heap.IsFile this)
    (files : before.heap.FilesApart)
    (isOther : before.heap.IsFile other) :
    Keeps before after other ∧ after.host = before.host := by
  cases conduct with
  | stays => exact ⟨⟨isOther, rfl, rfl⟩, rfl⟩
  | named _ _ isName stored => exact ⟨.of_name files isFile isOther isName stored, rfl⟩
  | looked which => cases which <;> contradiction

/-- An open file stays listed under a number that the receiver neither has nor owns. -/
theorem listed_other
    (conduct : Conduct call before this operation outcome after)
    {number : FileHandle}
    {file : OpenFile}
    (unreached : ∀ found, ¬ Reaches before this number found)
    (unowned : (before.heap.object this).openFile ≠ some number)
    (listed : before.host.openFiles.get? number = some file) :
    after.host.openFiles.get? number = some file := by
  cases conduct with
  | stays => exact listed
  | named => exact listed
  | @opened _ _ heap _ _ opened _ named =>
      have owner : (heap.object this).openFile ≠ some number := by
        rw [named.object_eq]
        exact unowned
      refine (OpenFiles.get?_without owner).trans ?_
      rw [OpenFiles.get?_insert, listed]
      rfl
  | wrote reaches =>
      refine (OpenFiles.get?_set_of_ne (fun same => ?_) _).trans listed
      subst same
      exact unreached _ reaches
  | looked _ reaches =>
      refine (OpenFiles.get?_set_of_ne (fun same => ?_) _).trans listed
      subst same
      exact unreached _ reaches
  | @closed own found _ _ reaches =>
      refine (OpenFiles.get?_without unowned).trans ?_
      refine (OpenFiles.get?_erase_of_ne fun same => ?_).trans listed
      subst same
      exact unreached _ reaches

end Conduct

/-! ## Opened files -/

section Opened

variable {call : NativeCall} {before : World} {this : ObjectId} {name : String} {mode : OpenMode}
  {heap last : Heap} {cell : CellId} {file : OpenFile} {files : FileAccess}

/-- The number that is given out next. -/
def nextNumber (world : World) : FileHandle :=
  world.host.openFiles.last + 1

/-- Another number is left for an open file: numbers are kept in fields of 32 bits. -/
def HasRoom (world : World) : Prop :=
  world.host.openFiles.last.toInt + 1 < 2 ^ 31

/-- The next number is one above the last. -/
theorem toInt_nextNumber
    (counted : 0 ≤ before.host.openFiles.last.toInt)
    (room : HasRoom before) :
    (nextNumber before).toInt = before.host.openFiles.last.toInt + 1 := by
  unfold HasRoom at room
  rw [nextNumber, Int64.toInt_add]
  exact Int.bmod_eq_of_le_mul_two (by simp; omega) (by simp; omega)

/-- The next number can be kept. -/
theorem nextNumber_fits
    (counted : 0 ≤ before.host.openFiles.last.toInt)
    (room : HasRoom before) :
    InSigned 32 (nextNumber before).toInt := by
  rw [toInt_nextNumber counted room]
  unfold HasRoom at room
  exact ⟨by omega, by omega⟩

/-- An opened file counts as the last one. -/
theorem last_register :
    (register ⟨heap, before.host⟩ this file files).host.openFiles.last = nextNumber before :=
  OpenFiles.last_without _

/-- A file that is opened keeps the next number, and owns what is open under it. -/
theorem Named.numbered
    (named : Named call before this name mode heap)
    (isFile : before.heap.IsFile this)
    (apart : before.heap.FilesApart)
    (fits : InSigned 32 (nextNumber before).toInt)
    (isHandle : (before.heap.object this).fieldNamed? "handle" = some cell)
    (kept :
      (register ⟨heap, before.host⟩ this file files).heap.assign cell (.int (nextNumber before)) =
        .ok last) :
    number? last this = some (nextNumber before) ∧
      (last.object this).openFile = some (nextNumber before) := by
  have given := Conduct.sameShape_opened named file files
  constructor
  · exact number?_assign_int (given.filesApart apart) (given.isFile_iff.mpr isFile)
      ((given.fieldNamed? this "handle").trans isHandle) fits kept
  · have inside : this.index < heap.objects.size := by
      have known := (given.isFile_iff.mpr isFile).known
      simpa [register, World.setOwned, Heap.setObject] using known
    rw [Heap.object_congr (Heap.assign_elsewhere kept).1]
    unfold register
    rw [World.object_setOwned, if_pos inside]
    rfl

/-- The opened file is listed under its number. -/
theorem Named.listed
    (named : Named call before this name mode heap)
    (unowned : (before.heap.object this).openFile ≠ some (nextNumber before))
    (unlisted : before.host.openFiles.get? (nextNumber before) = none) :
    (register ⟨heap, before.host⟩ this file files).host.openFiles.get? (nextNumber before) =
      some file := by
  have owner : (heap.object this).openFile ≠ some (nextNumber before) := by
    rw [named.object_eq]
    exact unowned
  refine (OpenFiles.get?_without owner).trans ?_
  rw [OpenFiles.get?_insert, unlisted, Option.none_or]
  exact if_pos rfl

end Opened

end FileLibrary

end BotScript
