import BotScript.Proofs.FileInstances
import BotScript.Proofs.WorldSteps

namespace BotScript

/-!
# Opening files

To open a file is to find its name and mode, to keep the name, to look whether the receiver
has an open file, to ask the store, and to give the receiver the number of the file.  An
attempt that fails leaves everything as it was but the name, which is the one that was asked
for if it got so far.
-/

/-! ## What actions result in -/

namespace Action

/-- An action over a world has an outcome and leaves a world. -/
def Results {α : Type}
    (before : World) (action : Action α) (outcome : Except Fault α) (after : World) : Prop :=
  action.run.run before = (outcome, after)

/-- An action that leaves the world as it is. -/
abbrev Looks {α : Type} (action : Action α) : Prop :=
  BotScript.Steady (@Eq World) action

namespace Results

variable {α β : Type} {before between after : World}

/-- A result that needs no action. -/
theorem pure (value : α) : Results before (Pure.pure value) (.ok value) before :=
  rfl

/-- What follows an action with a result goes on with the result. -/
theorem run_bind
    {first : Action α}
    {next : α → Action β}
    {middle : α}
    (taken : Results before first (.ok middle) between) :
    (first >>= next).run.run before = (next middle).run.run between := by
  unfold Results at taken
  rw [ExceptT.run_bind, StateT.run_bind, taken]
  rfl

/-- An action with a result, and what follows it. -/
theorem bind
    {first : Action α}
    {next : α → Action β}
    {middle : α}
    {outcome : Except Fault β}
    (taken : Results before first (.ok middle) between)
    (rest : Results between (next middle) outcome after) :
    Results before (first >>= next) outcome after :=
  taken.run_bind.trans rest

/-- Nothing follows an action that fails. -/
theorem stop
    {first : Action α}
    {next : α → Action β}
    {fault : Fault}
    (taken : Results before first (.error fault) after) :
    Results before (first >>= next) (.error fault) after := by
  unfold Results at taken ⊢
  rw [ExceptT.run_bind, StateT.run_bind, taken]
  rfl

/-- The world is looked at. -/
theorem get : Results before (MonadState.get : Action World) (.ok before) before :=
  rfl

/-- A failure. -/
theorem fail (code : ErrorCode) :
    Results before (Action.fail code : Action α) (.error (.error code)) before :=
  rfl

/-- The outcome of a check. -/
theorem ofChecked
    {result outcome : Checked α}
    (isOutcome : result = outcome) :
    Results before (Action.ofChecked result) outcome before := by
  subst isOutcome
  cases result <;> rfl

/-- A value that is there. -/
theorem require
    {code : ErrorCode}
    {found : Option α}
    {value : α}
    (isFound : found = some value) :
    Results before (Action.require code found) (.ok value) before := by
  subst isFound
  rfl

/-- A value that is missing. -/
theorem require_none
    {code : ErrorCode}
    {found : Option α}
    (isMissing : found = none) :
    Results before (Action.require code found) (.error (.error code)) before := by
  subst isMissing
  rfl

/-- A change of the host. -/
theorem modifyHost (change : Host → Host) :
    Results before (Action.modifyHost change) (.ok ()) ⟨before.heap, change before.host⟩ :=
  rfl

/-- Another heap. -/
theorem setHeap (heap : Heap) :
    Results before (Action.setHeap heap) (.ok ()) ⟨heap, before.host⟩ :=
  rfl

/-- A store of a value of the type of the cell. -/
theorem assign
    {cell : CellId}
    {value : Value}
    {heap : Heap}
    (assigned : before.heap.assign cell value = .ok heap) :
    Results before (Action.assign cell value) (.ok ()) ⟨heap, before.host⟩ :=
  get.bind ((ofChecked assigned).bind (setHeap heap))

/-- A store that fails changes nothing. -/
theorem assign_error
    {cell : CellId}
    {value : Value}
    {fault : Fault}
    (failed : before.heap.assign cell value = .error fault) :
    Results before (Action.assign cell value) (.error fault) before :=
  get.bind (ofChecked failed).stop

end Results

namespace Looks

open BotScript.Steady (andThen)

variable {α : Type}

/-- An action that leaves the world as it is fails or has a value, and nothing else. -/
theorem results
    (action : Action α)
    [looks : Looks action]
    (before : World) :
    (∃ fault, Results before action (.error fault) before) ∨
      ∃ value, Results before action (.ok value) before := by
  have stays : action.run.run before = ((action.run.run before).1, before) :=
    Prod.ext rfl (looks.kept before).symm
  cases outcome : (action.run.run before).1 with
  | error fault => exact .inl ⟨fault, stays.trans (by rw [outcome])⟩
  | ok value => exact .inr ⟨value, stays.trans (by rw [outcome])⟩

instance (code : ErrorCode) : Looks (fail code : Action α) := by
  unfold fail
  infer_instance

instance (result : Checked α) : Looks (ofChecked result) := by
  unfold ofChecked
  split <;> infer_instance

instance (code : ErrorCode) (value : Option α) : Looks (require code value) := by
  unfold require
  split <;> infer_instance

instance (call : NativeCall) (index : Nat) : Looks (call.string index) := by
  unfold NativeCall.string
  refine andThen fun value => ?_
  split <;> infer_instance

instance (call : NativeCall) : Looks call.this := by
  unfold NativeCall.this
  infer_instance

instance (call : NativeCall) (name : String) : Looks (call.fieldCell name) := by
  unfold NativeCall.fieldCell
  infer_instance

instance (call : NativeCall) : Looks (FileLibrary.handleOf call) := by
  unfold FileLibrary.handleOf
  infer_instance

instance (call : NativeCall) : Looks (FileLibrary.nameAndMode call) := by
  unfold FileLibrary.nameAndMode
  split
  · infer_instance
  · refine andThen fun argument => ?_
    split
    · refine andThen fun cell => andThen fun world => ?_
      split <;> infer_instance
    · infer_instance
  · infer_instance
  · infer_instance

end Looks

end Action

namespace NativeCall

open Action (Results)

variable {call : NativeCall} {this : ObjectId} {world : World}

/-- The receiver of a method. -/
theorem this_results
    (receiver : call.receiver = some this) :
    Results world call.this (.ok this) world :=
  .require receiver

/-- The cell of a field that the receiver has. -/
theorem fieldCell_results
    {name : String}
    {cell : CellId}
    (receiver : call.receiver = some this)
    (found : (world.heap.object this).fieldNamed? name = some cell) :
    Results world (call.fieldCell name) (.ok cell) world :=
  (this_results receiver).bind (Results.get.bind (.require found))

/-- A field that the receiver does not have. -/
theorem fieldCell_none
    {name : String}
    (receiver : call.receiver = some this)
    (missing : (world.heap.object this).fieldNamed? name = none) :
    Results world (call.fieldCell name) (.error (.error .undefinedMember)) world :=
  (this_results receiver).bind (Results.get.bind (.require_none missing))

end NativeCall

namespace FileLibrary

open Action (Results)

/-! ## Attempts to open a file -/

/-- The arguments of a call ask for a name and a mode. -/
def Asks (call : NativeCall) (world : World) (name : String) (mode : OpenMode) : Prop :=
  ((nameAndMode call).run.run world).1 = .ok (name, mode)

/-- The name that a call asks for is kept in the field of its receiver. -/
structure Named
    (call : NativeCall) (before : World) (this : ObjectId) (name : String) (mode : OpenMode)
    (heap : Heap) :
    Prop where
  receiver : call.receiver = some this
  asks : Asks call before name mode
  stored :
    ∃ cell,
      (before.heap.object this).fieldNamed? "filename" = some cell ∧
        before.heap.assign cell (.str name) = .ok heap

/-- The owner of an open file gets another one. -/
theorem attach_results
    (world : World)
    (this : ObjectId)
    (number : FileHandle) :
    Results world (attach this number) (.ok ()) (world.setOwned this (some number)) :=
  rfl

/-- The owner of an open file loses it. -/
theorem detach_results
    (world : World)
    (this : ObjectId) :
    Results world (detach this) (.ok ()) (world.setOwned this none) :=
  rfl

/-- The world in which an open file has been registered and given to an instance. -/
def register (world : World) (this : ObjectId) (file : OpenFile) (files : FileAccess) : World :=
  World.setOwned
    ⟨world.heap,
      { world.host with files, openFiles := (world.host.openFiles.insert file).2 }⟩
    this (some (world.host.openFiles.insert file).1)

/-- What an attempt to open a file comes to. -/
inductive Opens (call : NativeCall) (before : World) : Except Fault Unit → World → Prop where
  /-- There is no receiver, no name and mode, or no field that can keep the name. -/
  | refused
      {fault : Fault} :
      (∀ this name mode heap, ¬ Named call before this name mode heap) →
      Opens call before (.error fault) before
  /-- There is no field for the number of the file. -/
  | noHandle
      {this : ObjectId}
      {name : String}
      {mode : OpenMode}
      {heap : Heap} :
      Named call before this name mode heap →
      (heap.object this).fieldNamed? "handle" = none →
      Opens call before (.error (.error .undefinedMember)) ⟨heap, before.host⟩
  /-- The receiver has an open file already. -/
  | alreadyOpen
      {this : ObjectId}
      {name : String}
      {mode : OpenMode}
      {heap : Heap}
      {cell : CellId} :
      Named call before this name mode heap →
      (heap.object this).fieldNamed? "handle" = some cell →
      (heap.cell cell).state = .defined →
      Opens call before (.error (.error .fileOpen)) ⟨heap, before.host⟩
  /-- The store does not open the file. -/
  | denied
      {this : ObjectId}
      {name : String}
      {mode : OpenMode}
      {heap : Heap}
      {cell : CellId} :
      Named call before this name mode heap →
      (heap.object this).fieldNamed? "handle" = some cell →
      (heap.cell cell).state ≠ .defined →
      before.host.files.open? name mode = none →
      Opens call before (.error (.error .fileOpen)) ⟨heap, before.host⟩
  /-- The file is open, but the field cannot keep its number. -/
  | unnumbered
      {this : ObjectId}
      {name : String}
      {mode : OpenMode}
      {heap : Heap}
      {cell : CellId}
      {file : OpenFile}
      {files : FileAccess}
      {fault : Fault} :
      Named call before this name mode heap →
      (heap.object this).fieldNamed? "handle" = some cell →
      (heap.cell cell).state ≠ .defined →
      before.host.files.open? name mode = some (file, files) →
      (register ⟨heap, before.host⟩ this file files).heap.assign cell
        (.int (before.host.openFiles.insert file).1) = .error fault →
      Opens call before (.error fault) (register ⟨heap, before.host⟩ this file files)
  /-- The file is open, and the receiver has its number. -/
  | opened
      {this : ObjectId}
      {name : String}
      {mode : OpenMode}
      {heap last : Heap}
      {cell : CellId}
      {file : OpenFile}
      {files : FileAccess} :
      Named call before this name mode heap →
      (heap.object this).fieldNamed? "handle" = some cell →
      (heap.cell cell).state ≠ .defined →
      before.host.files.open? name mode = some (file, files) →
      (register ⟨heap, before.host⟩ this file files).heap.assign cell
        (.int (before.host.openFiles.insert file).1) = .ok last →
      Opens call before (.ok ()) ⟨last, (register ⟨heap, before.host⟩ this file files).host⟩

/-- The first part of an attempt: find the name and mode, and keep the name. -/
def keepName (call : NativeCall) : Action (ObjectId × String × OpenMode) := do
  let this ← call.this
  let (name, mode) ← nameAndMode call
  Action.assign (← call.fieldCell "filename") (.str name)
  pure (this, name, mode)

/-- The second part of an attempt: open the file under the name that is kept. -/
def openNamed
    (call : NativeCall) (this : ObjectId) (name : String) (mode : OpenMode) : Action Unit := do
  let handleCell ← call.fieldCell "handle"
  let world ← get
  if (world.heap.cell handleCell).state == .defined then Action.fail .fileOpen
  let (file, files) ← Action.require .fileOpen (world.host.files.open? name mode)
  let (handle, openFiles) := world.host.openFiles.insert file
  Action.modifyHost fun host => { host with files, openFiles }
  attach this handle
  Action.assign handleCell (.int handle)

/-- The two parts of an attempt. -/
theorem openFile_eq (call : NativeCall) :
    openFile call = (do
      let (this, name, mode) ← keepName call
      openNamed call this name mode) := by
  simp only [openFile, keepName, openNamed, bind_assoc, pure_bind]

section Attempt

variable {call : NativeCall} {before : World}

/-- The first part of an attempt keeps a name, or does nothing when there is none to keep. -/
theorem keepName_results (call : NativeCall) (before : World) :
    (∃ fault,
      Results before (keepName call) (.error fault) before ∧
        ∀ this name mode heap, ¬ Named call before this name mode heap) ∨
    ∃ this name mode heap,
      Results before (keepName call) (.ok (this, name, mode)) ⟨heap, before.host⟩ ∧
        Named call before this name mode heap := by
  unfold keepName
  cases receiver : call.receiver with
  | none =>
      refine .inl ⟨_, Results.stop (.require_none receiver), fun _ _ _ _ named => ?_⟩
      cases receiver.symm.trans named.receiver
  | some this =>
    have isThis : Results before call.this (.ok this) before := NativeCall.this_results receiver
    obtain ⟨fault, refused⟩ | ⟨⟨name, mode⟩, asked⟩ :=
      Action.Looks.results (nameAndMode call) before
    · refine .inl ⟨_, isThis.bind refused.stop, fun _ _ _ _ named => ?_⟩
      cases (congrArg Prod.fst refused).symm.trans named.asks
    · have asks : Asks call before name mode := congrArg Prod.fst asked
      cases isField : (before.heap.object this).fieldNamed? "filename" with
      | none =>
          have noField := NativeCall.fieldCell_none receiver isField
          refine .inl ⟨_, isThis.bind (asked.bind noField.stop), fun _ _ _ _ named => ?_⟩
          obtain ⟨cell, found, -⟩ := named.stored
          cases receiver.symm.trans named.receiver
          cases isField.symm.trans found
      | some cell =>
        have isCell : Results before (call.fieldCell "filename") (.ok cell) before :=
          NativeCall.fieldCell_results receiver isField
        cases stored : before.heap.assign cell (.str name) with
        | error fault =>
            have failed := Results.assign_error stored
            refine .inl ⟨_, isThis.bind (asked.bind (isCell.bind failed.stop)),
              fun _ _ _ _ named => ?_⟩
            obtain ⟨other, found, isStored⟩ := named.stored
            cases receiver.symm.trans named.receiver
            cases isField.symm.trans found
            cases asks.symm.trans named.asks
            cases stored.symm.trans isStored
        | ok heap =>
          exact .inr ⟨this, name, mode, heap,
            isThis.bind (asked.bind (isCell.bind ((Results.assign stored).bind (.pure _)))),
            receiver, asks, cell, isField, stored⟩

/-- The second part of an attempt comes to one of the ends behind the first part. -/
theorem Named.openNamed_opens
    {this : ObjectId}
    {name : String}
    {mode : OpenMode}
    {heap : Heap}
    (named : Named call before this name mode heap) :
    ∃ outcome after,
      Results ⟨heap, before.host⟩ (openNamed call this name mode) outcome after ∧
        Opens call before outcome after := by
  unfold openNamed
  cases isField : (heap.object this).fieldNamed? "handle" with
  | none =>
      have noField : Results ⟨heap, before.host⟩ (call.fieldCell "handle") _ ⟨heap, before.host⟩ :=
        NativeCall.fieldCell_none named.receiver isField
      exact ⟨_, _, noField.stop, .noHandle named isField⟩
  | some cell =>
    have isCell : Results ⟨heap, before.host⟩ (call.fieldCell "handle") (.ok cell) _ :=
      NativeCall.fieldCell_results named.receiver isField
    by_cases isOpen : (heap.cell cell).state = .defined
    · refine ⟨_, _, isCell.bind (Results.get.bind ?_), .alreadyOpen named isField isOpen⟩
      dsimp only
      rw [if_pos (by simpa using isOpen)]
      exact (Results.fail _).stop
    · cases isOpened : before.host.files.open? name mode with
      | none =>
          refine ⟨_, _, isCell.bind (Results.get.bind ?_), .denied named isField isOpen isOpened⟩
          dsimp only
          rw [if_neg (by simpa using isOpen)]
          exact (Results.require_none isOpened).stop
      | some opened =>
        obtain ⟨file, files⟩ := opened
        cases kept : (register ⟨heap, before.host⟩ this file files).heap.assign cell
            (.int (before.host.openFiles.insert file).1) with
        | error fault =>
            refine ⟨_, _, isCell.bind (Results.get.bind ?_),
              .unnumbered named isField isOpen isOpened kept⟩
            dsimp only
            rw [if_neg (by simpa using isOpen)]
            refine (Results.require isOpened).bind ?_
            exact (Results.modifyHost _).bind ((attach_results ..).bind (.assign_error kept))
        | ok last =>
            refine ⟨_, _, isCell.bind (Results.get.bind ?_),
              .opened named isField isOpen isOpened kept⟩
            dsimp only
            rw [if_neg (by simpa using isOpen)]
            refine (Results.require isOpened).bind ?_
            exact (Results.modifyHost _).bind ((attach_results ..).bind (.assign kept))

/-- An attempt to open a file comes to one of its ends. -/
theorem openFile_opens (call : NativeCall) (before : World) :
    ∃ outcome after,
      Results before (openFile call) outcome after ∧ Opens call before outcome after := by
  rw [openFile_eq]
  obtain ⟨fault, failed, none⟩ | ⟨this, name, mode, heap, kept, named⟩ :=
    keepName_results call before
  · exact ⟨_, _, failed.stop, .refused none⟩
  · obtain ⟨outcome, after, attempted, opens⟩ := named.openNamed_opens
    exact ⟨outcome, after, kept.bind attempted, opens⟩

end Attempt

end FileLibrary

/-! ## Attempts that fail -/

namespace FileLibrary

open Action (Results)

/-- The instance has the number of an open file. -/
def HasNumber (heap : Heap) (this : ObjectId) : Prop :=
  ∃ cell,
    (heap.object this).fieldNamed? "handle" = some cell ∧ (heap.cell cell).state = .defined

/-- The cell in which an instance keeps the number of its open file can keep numbers. -/
def CanBeNumbered (heap : Heap) (this : ObjectId) : Prop :=
  ∀ cell, (heap.object this).fieldNamed? "handle" = some cell → (heap.cell cell).ty.KeepsNumbers

/-- What an instance has, and all files, are as they were. -/
structure Untouched (this : ObjectId) (before after : World) : Prop where
  filename :
    ∀ cell, (before.heap.object this).fieldNamed? "filename" = some cell →
      after.heap.cell cell = before.heap.cell cell
  handle :
    ∀ cell, (before.heap.object this).fieldNamed? "handle" = some cell →
      after.heap.cell cell = before.heap.cell cell
  guard : after.heap.object this = before.heap.object this
  openFiles : after.host.openFiles = before.host.openFiles
  files : after.host.files = before.host.files

/--
What an attempt that failed has changed: nothing, or only the name that the instance keeps,
which is the one that was asked for, and this only where the instance had an open file or the
store did not open the one with that name.
-/
structure OnlyNamed
    (call : NativeCall) (this : ObjectId) (fault : Fault) (before after : World) : Prop where
  host : after.host = before.host
  objects : after.heap.objects = before.heap.objects
  arrays : after.heap.arrays = before.heap.arrays
  handle :
    ∀ cell, (before.heap.object this).fieldNamed? "handle" = some cell →
      after.heap.cell cell = before.heap.cell cell
  others :
    ∀ cell, (before.heap.object this).fieldNamed? "filename" ≠ some cell →
      after.heap.cell cell = before.heap.cell cell
  name :
    after.heap = before.heap ∨
      ∃ name mode,
        Named call before this name mode after.heap ∧
          fault = .error .fileOpen ∧
          (HasNumber before.heap this ∨ before.host.files.open? name mode = none)

section Failures

variable {call : NativeCall} {this : ObjectId} {before : World} {fault : Fault}

/-- Nothing has changed in the world that was there before. -/
theorem OnlyNamed.unchanged : OnlyNamed call this fault before before :=
  ⟨rfl, rfl, rfl, fun _ _ => rfl, fun _ _ => rfl, .inl rfl⟩

namespace Named

variable {name : String} {mode : OpenMode} {heap : Heap}

/-- The name is kept in no other cell. -/
theorem cell_eq
    (named : Named call before this name mode heap)
    {cell : CellId}
    (isOther : (before.heap.object this).fieldNamed? "filename" ≠ some cell) :
    heap.cell cell = before.heap.cell cell := by
  obtain ⟨nameCell, isName, stored⟩ := named.stored
  refine Heap.cell_assign_of_ne stored fun same => isOther ?_
  rw [same]
  exact isName

/-- Instances are as they were before the name was kept. -/
theorem object_eq
    (named : Named call before this name mode heap)
    (object : ObjectId) :
    heap.object object = before.heap.object object := by
  obtain ⟨_, _, stored⟩ := named.stored
  exact Heap.object_congr (Heap.assign_elsewhere stored).1 object

/-- A file keeps its number when its name is kept. -/
theorem handle_eq
    (named : Named call before this name mode heap)
    (isFile : before.heap.IsFile this)
    {cell : CellId}
    (isHandle : (before.heap.object this).fieldNamed? "handle" = some cell) :
    heap.cell cell = before.heap.cell cell := by
  obtain ⟨nameCell, handle, isName, isNumber, differ⟩ := isFile.cells
  cases isNumber.symm.trans isHandle
  refine named.cell_eq fun same => differ ?_
  exact Option.some.inj (isName.symm.trans same)

/-- An attempt that failed when only the name was kept. -/
theorem onlyNamed
    (named : Named call before this name mode heap)
    (isFile : before.heap.IsFile this)
    (failed : HasNumber before.heap this ∨ before.host.files.open? name mode = none) :
    OnlyNamed call this (.error .fileOpen) before ⟨heap, before.host⟩ := by
  obtain ⟨_, _, stored⟩ := named.stored
  have ⟨objects, arrays⟩ := Heap.assign_elsewhere stored
  exact
    { host := rfl
      objects
      arrays
      handle := fun _ isHandle => named.handle_eq isFile isHandle
      others := fun _ isOther => named.cell_eq isOther
      name := .inr ⟨name, mode, named, rfl, failed⟩ }

end Named

/-- An attempt that fails has kept the name at most. -/
theorem Opens.onlyNamed
    {after : World}
    (opens : Opens call before (.error fault) after)
    (receiver : call.receiver = some this)
    (isFile : before.heap.IsFile this)
    (numbered : CanBeNumbered before.heap this) :
    OnlyNamed call this fault before after := by
  cases opens with
  | refused => exact .unchanged
  | noHandle named missing =>
      cases receiver.symm.trans named.receiver
      obtain ⟨-, handle, -, isHandle, -⟩ := isFile.cells
      rw [named.object_eq, isHandle] at missing
      cases missing
  | alreadyOpen named isHandle isOpen =>
      cases receiver.symm.trans named.receiver
      rw [named.object_eq] at isHandle
      rw [named.handle_eq isFile isHandle] at isOpen
      exact named.onlyNamed isFile (.inl ⟨_, isHandle, isOpen⟩)
  | denied named isHandle isClosed isDenied =>
      cases receiver.symm.trans named.receiver
      exact named.onlyNamed isFile (.inr isDenied)
  | @unnumbered _ _ _ heap cell file files _ named isHandle isClosed isOpened unkept =>
      cases receiver.symm.trans named.receiver
      rw [named.object_eq] at isHandle
      -- Neither the name nor the registration has changed the type of the cell.
      have keeps :
          ((register ⟨heap, before.host⟩ this file files).heap.cell cell).ty.KeepsNumbers := by
        change (heap.cell cell).ty.KeepsNumbers
        rw [named.handle_eq isFile isHandle]
        exact numbered cell isHandle
      obtain ⟨after, kept⟩ := Heap.assign_int keeps _
      cases unkept.symm.trans kept

end Failures

/--
An `open` that fails leaves the open files, the stored files, the owners of open files and
the number of its receiver as they were.  The name of the receiver is as it was, or the one
that was asked for; the latter only if the receiver has an open file, or the store does not
open the one that was asked for.
-/
theorem openMethod_failed
    {call : NativeCall}
    {this : ObjectId}
    {fault : Fault}
    {before after : World}
    (receiver : call.receiver = some this)
    (isFile : before.heap.IsFile this)
    (numbered : CanBeNumbered before.heap this)
    (failed : Results before (openMethod.run call) (.error fault) after) :
    OnlyNamed call this fault before after := by
  obtain ⟨outcome, reached, attempted, opens⟩ := openFile_opens call before
  cases outcome with
  | ok =>
      have succeeded : Results before (openMethod.run call) _ _ := attempted.bind (.pure _)
      cases failed.symm.trans succeeded
  | error reason =>
      have stopped : Results before (openMethod.run call) _ _ := attempted.stop
      cases failed.symm.trans stopped
      exact opens.onlyNamed receiver isFile numbered

/-- A world with some stored texts and one file object, which is closed. -/
def closedFile (stored : List (String × String)) : World :=
  ⟨(Heap.newInstance {} ⟨⟨0⟩, [level]⟩).2, { files := .inMemory ⟨stored⟩ }⟩

/-- The file object of that world is a file. -/
theorem closedFile_isFile (stored : List (String × String)) :
    (closedFile stored).heap.IsFile ⟨0⟩ :=
  @Heap.isFile_newInstance {} ⟨⟨0⟩, [level]⟩ (List.mem_singleton_self level)

/-- A call that asks for a name and a mode. -/
def openCall (this : ObjectId) (name mode : String) : NativeCall :=
  ⟨some this, [.str name, .str mode], [.string, .string]⟩

/-- The world in which the file has been opened for writing. -/
def writtenFile (name : String) : World :=
  ((openMethod.run (openCall ⟨0⟩ name "w")).run.run (closedFile [])).2

/-- A second `open` of a file that is open fails, and keeps the other name. -/
theorem openMethod_failed_again :
    OnlyNamed (openCall ⟨0⟩ "b" "r") ⟨0⟩ (.error .fileOpen) (writtenFile "a")
      ((openMethod.run (openCall ⟨0⟩ "b" "r")).run.run (writtenFile "a")).2 := by
  have isFile : (writtenFile "a").heap.IsFile ⟨0⟩ := ⟨by decide, by decide, by decide⟩
  have numbered : CanBeNumbered (writtenFile "a").heap ⟨0⟩ := fun cell isHandle => by
    cases isHandle
    exact .inl rfl
  exact openMethod_failed rfl isFile numbered rfl

/-- The name that is asked for replaces the one that a file had, although it is not opened. -/
theorem openMethod_failed_renamed :
    ¬ ∀ (call : NativeCall) (this : ObjectId) (fault : Fault) (before after : World),
      call.receiver = some this → before.heap.IsFile this →
        Results before (openMethod.run call) (.error fault) after →
          Untouched this before after := by
  intro untouched
  have isFile : (writtenFile "a").heap.IsFile ⟨0⟩ := ⟨by decide, by decide, by decide⟩
  have kept :=
    untouched (openCall ⟨0⟩ "b" "r") ⟨0⟩ (.error .fileOpen) (writtenFile "a") _ rfl isFile rfl
  exact absurd (kept.filename ⟨0⟩ rfl) (by decide)

end FileLibrary

end BotScript
