import BotScript.Proofs.ExactIntegers
import BotScript.Proofs.FileOpening

namespace BotScript

/-!
# Numbers of open files

A file finds its open file in a table, under the number that it keeps.  Its methods change the
table under that number only, and fail where there is no such number or nothing under it.
-/

/-! ## Shapes of heaps -/

/-- Instances have the cells that they had, and cells have the types that they had. -/
structure Heap.SameShape (before after : Heap) : Prop where
  layout : ∀ object, (after.object object).layout = (before.object object).layout
  fields : ∀ object, (after.object object).fields = (before.object object).fields
  types : ∀ cell, (after.cell cell).ty = (before.cell cell).ty

namespace Heap.SameShape

variable {before between after : Heap}

/-- A heap has its own shape. -/
theorem refl : SameShape before before :=
  ⟨fun _ => rfl, fun _ => rfl, fun _ => rfl⟩

/-- Two changes that keep the shape keep it together. -/
theorem trans
    (first : SameShape before between)
    (second : SameShape between after) :
    SameShape before after :=
  ⟨fun object => (second.layout object).trans (first.layout object),
    fun object => (second.fields object).trans (first.fields object),
    fun cell => (second.types cell).trans (first.types cell)⟩

/-- Fields have the cells that they had. -/
theorem fieldNamed?
    (same : SameShape before after)
    (object : ObjectId)
    (name : String) :
    (after.object object).fieldNamed? name = (before.object object).fieldNamed? name := by
  rw [Instance.fieldNamed?, Instance.fieldNamed?, same.layout, same.fields]

/-- Files are the instances that were files. -/
theorem isFile_iff
    (same : SameShape before after)
    {object : ObjectId} :
    after.IsFile object ↔ before.IsFile object := by
  constructor
  · rintro ⟨inherits, complete, apart⟩
    rw [same.layout] at inherits complete
    rw [same.fields] at complete apart
    exact ⟨inherits, complete, apart⟩
  · rintro ⟨inherits, complete, apart⟩
    rw [← same.layout] at inherits complete
    rw [← same.fields] at complete apart
    exact ⟨inherits, complete, apart⟩

/-- A store keeps the shape. -/
theorem assign
    {id : CellId}
    {value : Value}
    (assigned : before.assign id value = .ok after) :
    SameShape before after := by
  obtain ⟨content, -, rfl⟩ := assign_eq_ok_iff.mp assigned
  refine ⟨fun _ => rfl, fun _ => rfl, fun cell => ?_⟩
  by_cases same : cell = id
  · subst same
    by_cases known : cell.index < before.cells.size
    · rw [cell_setCell known]
    · simp [Heap.cell, setCell, known]
  · rw [cell_setCell_of_ne same]

end Heap.SameShape

/-! ## Owners of open files -/

namespace World

variable {world : World} {this : ObjectId} {owned : Option FileHandle}

/-- A change of the owned file keeps the shape of the heap. -/
theorem sameShape_setOwned : world.heap.SameShape (world.setOwned this owned).heap := by
  have kept (object : ObjectId) :
      ((world.setOwned this owned).heap.object object).layout =
          (world.heap.object object).layout ∧
        ((world.setOwned this owned).heap.object object).fields =
          (world.heap.object object).fields := by
    by_cases same : object = this
    · subst same
      rw [object_setOwned]
      exact ⟨rfl, rfl⟩
    · rw [object_setOwned_of_ne same]
      exact ⟨rfl, rfl⟩
  exact ⟨fun object => (kept object).1, fun object => (kept object).2, fun _ => rfl⟩

/-- To close the file of an instance that is not in use is to take it away. -/
theorem closeFile_eq :
    world.closeFile this =
      if (world.heap.object this).openFile = none then world else world.setOwned this none := by
  unfold closeFile setOwned
  dsimp only
  cases (world.heap.object this).openFile <;> rfl

end World

namespace FileLibrary

open Action (Results)

/-! ## Numbers that instances keep -/

/-- The cell in which an instance keeps the number of its open file. -/
def handle? (heap : Heap) (this : ObjectId) : Option Cell :=
  ((heap.object this).fieldNamed? "handle").map heap.cell

/-- The number that an instance keeps of its open file. -/
def number? (heap : Heap) (this : ObjectId) : Option FileHandle :=
  (handle? heap this).bind fun cell =>
    if cell.state = .defined then cell.value.int? else none

/-- An instance has an open file: it keeps the number under which the table has one. -/
structure Reaches
    (world : World) (this : ObjectId) (number : FileHandle) (file : OpenFile) : Prop where
  kept : number? world.heap this = some number
  listed : world.host.openFiles.get? number = some file

section Numbers

variable {call : NativeCall} {this : ObjectId} {world : World} {number : FileHandle}

/-- The cell of the number is that of the field. -/
theorem handle?_eq
    {heap : Heap}
    {cell : CellId}
    (isHandle : (heap.object this).fieldNamed? "handle" = some cell) :
    handle? heap this = some (heap.cell cell) := by
  rw [handle?, isHandle, Option.map_some]

/-- The number of an instance is in the cell of its field. -/
theorem number?_eq
    {heap : Heap}
    {cell : CellId}
    (isHandle : (heap.object this).fieldNamed? "handle" = some cell) :
    number? heap this =
      if (heap.cell cell).state = .defined then (heap.cell cell).value.int? else none := by
  rw [number?, handle?_eq isHandle, Option.bind_some]

/-- An instance has a number if its cell has been assigned. -/
theorem hasNumber_iff {heap : Heap} :
    HasNumber heap this ↔ ∃ cell, handle? heap this = some cell ∧ cell.state = .defined := by
  unfold HasNumber handle?
  simp only [Option.map_eq_some_iff]
  constructor
  · rintro ⟨cell, isHandle, isDefined⟩
    exact ⟨_, ⟨cell, isHandle, rfl⟩, isDefined⟩
  · rintro ⟨_, ⟨cell, isHandle, rfl⟩, isDefined⟩
    exact ⟨cell, isHandle, isDefined⟩

/-- Without a number none is read. -/
theorem number?_of_not_hasNumber
    {heap : Heap}
    (unnumbered : ¬ HasNumber heap this) :
    number? heap this = none := by
  rw [hasNumber_iff, not_exists] at unnumbered
  refine Option.bind_eq_none_iff.mpr fun cell isHandle => if_neg fun isDefined => ?_
  exact unnumbered cell ⟨isHandle, isDefined⟩

/-- Instances of heaps of one shape keep the same if the cell is the same. -/
theorem handle?_congr
    {before after : Heap}
    (same : before.SameShape after)
    (kept :
      ∀ cell, (before.object this).fieldNamed? "handle" = some cell →
        after.cell cell = before.cell cell) :
    handle? after this = handle? before this := by
  unfold handle?
  rw [same.fieldNamed?]
  cases isHandle : (before.object this).fieldNamed? "handle" with
  | none => rfl
  | some cell => rw [Option.map_some, Option.map_some, kept cell isHandle]

variable (receiver : call.receiver = some this)

include receiver

/-- A number that is kept is found. -/
theorem handleOf_number
    (isNumber : number? world.heap this = some number) :
    Results world (handleOf call) (.ok number) world := by
  obtain ⟨_, isKept, kept⟩ := Option.bind_eq_some_iff.mp isNumber
  obtain ⟨cell, isHandle, rfl⟩ := Option.map_eq_some_iff.mp isKept
  refine (NativeCall.fieldCell_results receiver isHandle).bind (Results.get.bind ?_)
  obtain ⟨isDefined, isInt⟩ : (world.heap.cell cell).state = .defined ∧ _ := by
    by_cases isDefined : (world.heap.cell cell).state = .defined
    · rw [if_pos isDefined] at kept
      exact ⟨isDefined, kept⟩
    · rw [if_neg isDefined] at kept
      cases kept
  dsimp only
  rw [if_neg (by simp [isDefined])]
  exact (Results.pure _).bind (.require isInt)

/-- A closed file has no number. -/
theorem handleOf_closed
    (isFile : world.heap.IsFile this)
    (closed : number? world.heap this = none) :
    Results world (handleOf call) (.error (.error .fileNotOpen)) world := by
  obtain ⟨-, cell, -, isHandle, -⟩ := isFile.cells
  rw [number?_eq isHandle] at closed
  refine (NativeCall.fieldCell_results receiver isHandle).bind (Results.get.bind ?_)
  dsimp only
  by_cases isDefined : (world.heap.cell cell).state = .defined
  · rw [if_pos isDefined] at closed
    rw [if_neg (by simp [isDefined])]
    exact (Results.pure _).bind (.require_none closed)
  · rw [if_pos (by simp [isDefined])]
    exact (Results.fail _).stop

/-! ## Methods of open files -/

/-- An operation on an open file changes the file and the store. -/
theorem withOpen_reaches
    {α : Type}
    {operation : OpenFile → FileAccess → α × OpenFile × FileAccess}
    {file : OpenFile}
    (reaches : Reaches world this number file) :
    Results world (withOpen call operation) (.ok (operation file world.host.files).1)
      (world.setFile number (operation file world.host.files).2.1
        (operation file world.host.files).2.2) :=
  (handleOf_number receiver reaches.kept).bind
    (Results.get.bind ((Results.require reaches.listed).bind
      ((Results.modifyHost _).bind (.pure _))))

omit receiver in
/-- What is no open file's number is not in the table. -/
theorem unlisted_of_closed
    (closed : ∀ number file, ¬ Reaches world this number file)
    (isNumber : number? world.heap this = some number) :
    world.host.openFiles.get? number = none :=
  Option.eq_none_iff_forall_ne_some.mpr fun file listed => closed number file ⟨isNumber, listed⟩

/-- Without an open file there is no operation on it. -/
theorem withOpen_closed
    {α : Type}
    {operation : OpenFile → FileAccess → α × OpenFile × FileAccess}
    (isFile : world.heap.IsFile this)
    (closed : ∀ number file, ¬ Reaches world this number file) :
    Results world (withOpen call operation) (.error (.error .fileNotOpen)) world := by
  cases isNumber : number? world.heap this with
  | none => exact (handleOf_closed receiver isFile isNumber).stop
  | some number =>
      have unlisted := unlisted_of_closed closed isNumber
      exact (handleOf_number receiver isNumber).bind
        (Results.get.bind (Results.require_none unlisted).stop)

/-- An open file is read by the line. -/
theorem readMethod_reaches
    {file : OpenFile}
    (reaches : Reaches world this number file) :
    Results world (readMethod.run call)
      ((file.readLine world.host.files).1.elim (.error (.error .readFailed)) fun line =>
        .ok (.str line))
      (world.setFile number (file.readLine world.host.files).2 world.host.files) := by
  refine Results.bind (withOpen_reaches receiver reaches) ?_
  cases (file.readLine world.host.files).1 with
  | none => exact (Results.require_none rfl).stop
  | some line => exact Results.bind (.require rfl) (.pure (Value.str line))

/-- An open file tells whether anything is left to read. -/
theorem eofMethod_reaches
    {file : OpenFile}
    (reaches : Reaches world this number file) :
    Results world (eofMethod.run call) (.ok (.bool (file.isAtEnd world.host.files).1))
      (world.setFile number (file.isAtEnd world.host.files).2 world.host.files) :=
  Results.bind (withOpen_reaches receiver reaches) (.pure _)

/-- A line is written to an open file. -/
theorem writeMethod_reaches
    {file : OpenFile}
    {text : String}
    (isText : Results world (call.string 0) (.ok text) world)
    (reaches : Reaches world this number file) :
    Results world (writeMethod.run call)
      (if (file.write world.host.files (text ++ "\n")).1 then .ok .void
        else .error (.error .writeFailed))
      (world.setFile number (file.write world.host.files (text ++ "\n")).2.1
        (file.write world.host.files (text ++ "\n")).2.2) := by
  refine isText.bind (Results.bind (NativeCall.this_results receiver) ?_)
  refine (withOpen_reaches receiver reaches).bind ?_
  cases (file.write world.host.files (text ++ "\n")).1 with
  | false => exact Results.fail _
  | true => exact Results.pure _

omit receiver in
/-- The world in which an instance has closed its open file. -/
def closedWorld
    (world : World) (this : ObjectId) (number : FileHandle) (cell : CellId) : World :=
  let erased : World :=
    ⟨world.heap, { world.host with openFiles := world.host.openFiles.erase number }⟩
  let free := erased.setOwned this none
  ⟨free.heap.setCell cell (Cell.declared .int), free.host⟩

/-- An open file is closed. -/
theorem closeMethod_reaches
    {file : OpenFile}
    {cell : CellId}
    (isHandle : (world.heap.object this).fieldNamed? "handle" = some cell)
    (reaches : Reaches world this number file) :
    Results world (closeMethod.run call) (.ok .void) (closedWorld world this number cell) := by
  refine Results.bind (NativeCall.this_results receiver)
    ((handleOf_number receiver reaches.kept).bind (Results.get.bind ?_))
  dsimp only
  rw [if_neg (by simp [reaches.listed])]
  have erased :
      Results world
        (Action.modifyHost fun host => { host with openFiles := host.openFiles.erase number })
        (.ok ()) _ :=
    .modifyHost _
  refine erased.bind ((detach_results _ this).bind ?_)
  have isSame :
      (((⟨world.heap,
          { world.host with openFiles := world.host.openFiles.erase number }⟩ : World).setOwned
        this none).heap.object this).fieldNamed? "handle" = some cell :=
    (World.sameShape_setOwned.fieldNamed? this "handle").trans isHandle
  exact (NativeCall.fieldCell_results receiver isSame).bind
    (Results.get.bind ((Results.setHeap _).bind (.pure _)))

end Numbers

end FileLibrary

end BotScript
