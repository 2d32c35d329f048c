import BotScript.Host.FileLibrary
import BotScript.Proofs.ArrayGrowth
import BotScript.Proofs.YieldedConstants
import Mathlib.Data.List.Nodup
import Mathlib.Data.List.Range

namespace BotScript

/-!
# Instances of the file class

A file keeps its name and the number of its open file in cells of its own.  What is stored in
one of them leaves the other as it was.  The open files are in a table, and instances own what
they have opened.
-/

/-! ## Stores of names and numbers -/

namespace Heap

variable {heap after : Heap} {id : CellId} {value : Value}

/-- What a store changes. -/
theorem assign_eq_ok_iff :
    heap.assign id value = .ok after ↔
      ∃ content,
        heap.convertWhile (some id) value (heap.cell id).ty (heap.cell id).ty = .ok content ∧
          after = heap.setCell id ⟨(heap.cell id).ty, content, .defined⟩ := by
  unfold assign store Cell.stored
  cases heap.convertWhile (some id) value (heap.cell id).ty (heap.cell id).ty with
  | error fault => simp [Except.map]
  | ok content => simp [Except.map, eq_comm]

/-- A store leaves the other cells. -/
theorem cell_assign_of_ne
    {other : CellId}
    (assigned : heap.assign id value = .ok after)
    (differ : other ≠ id) :
    after.cell other = heap.cell other := by
  obtain ⟨content, -, rfl⟩ := assign_eq_ok_iff.mp assigned
  exact cell_setCell_of_ne differ _

/-- A store leaves instances and arrays. -/
theorem assign_elsewhere
    (assigned : heap.assign id value = .ok after) :
    after.objects = heap.objects ∧ after.arrays = heap.arrays := by
  obtain ⟨content, -, rfl⟩ := assign_eq_ok_iff.mp assigned
  exact ⟨rfl, rfl⟩

/-- Where instances are the same, each of them is the same. -/
theorem object_congr
    (same : after.objects = heap.objects)
    (object : ObjectId) :
    after.object object = heap.object object := by
  rw [Heap.object, Heap.object, same]

end Heap

/-- Cells of a type can keep numbers. -/
def Ty.KeepsNumbers (ty : Ty) : Prop :=
  ty.isNumeric = true ∨ ty = .string

/-- A number is kept by a cell that can. -/
theorem Heap.assign_int
    {heap : Heap}
    {id : CellId}
    (keeps : (heap.cell id).ty.KeepsNumbers)
    (number : Int64) :
    ∃ after, heap.assign id (.int number) = .ok after := by
  have converts :
      ∃ content,
        heap.convertWhile (some id) (.int number) (heap.cell id).ty (heap.cell id).ty =
          .ok content := by
    generalize (heap.cell id).ty = ty at keeps
    obtain isNumeric | rfl := keeps
    · cases ty
      case void | boolean | string | null | array | object => cases isNumeric
      all_goals exact ⟨_, rfl⟩
    · have text := textWithin_scalar (rfl : (Value.int number).refs = []) heap (some id)
      have converted :
          heap.convertWhile (some id) (.int number) .string .string =
            (heap.textWithin (some id) heap.textDepth (.int number) .string).map .str := by
        unfold convertWhile
        rfl
      rw [converted, text]
      exact ⟨_, rfl⟩
  obtain ⟨content, converted⟩ := converts
  exact ⟨_, assign_eq_ok_iff.mpr ⟨content, converted, rfl⟩⟩

/-! ## Instances of the file class -/

namespace ClassLayout

/-- All fields of levels, base class first. -/
def fieldsOf (levels : List LayoutLevel) : List FieldSlot :=
  levels.reverse.flatMap (·.fields)

/-- The fields of the first level come after those of the others. -/
theorem fieldsOf_cons
    (level : LayoutLevel)
    (ancestors : List LayoutLevel) :
    fieldsOf (level :: ancestors) = fieldsOf ancestors ++ level.fields := by
  simp [fieldsOf]

/-- There are as many fields as are counted. -/
theorem length_fieldsOf (levels : List LayoutLevel) :
    (fieldsOf levels).length = countFields levels :=
  Heap.Sound.length_allFields ⟨Id.ofIndex 0, levels⟩

/-- The number of a name is that of a field with the name. -/
theorem fieldsOf_fieldIndexIn?
    {name : String}
    {levels : List LayoutLevel}
    {index : Nat}
    (found : fieldIndexIn? name levels = some index) :
    ((fieldsOf levels)[index]?).map (·.name) = some name := by
  induction levels with
  | nil => cases found
  | cons level ancestors inductionHypothesis =>
      rw [fieldIndexIn?] at found
      rw [fieldsOf_cons]
      cases own : level.fields.findIdx? fun field => field.name == name with
      | some position =>
          rw [own] at found
          cases found
          rw [← length_fieldsOf, List.getElem?_append_right (Nat.le_add_right _ _),
            Nat.add_sub_cancel_left]
          obtain ⟨inside, isName, -⟩ := List.findIdx?_eq_some_iff_getElem.mp own
          rw [List.getElem?_eq_getElem inside]
          exact congrArg some (by simpa using isName)
      | none =>
          rw [own] at found
          obtain ⟨field, isField, isName⟩ := Option.map_eq_some_iff.mp (inductionHypothesis found)
          rw [List.getElem?_append_left (List.getElem?_eq_some_iff.mp isField).1, isField]
          exact congrArg some isName

/-- The number of a name is below the number of fields. -/
theorem fieldIndexIn?_lt
    {name : String}
    {levels : List LayoutLevel}
    {index : Nat}
    (found : fieldIndexIn? name levels = some index) :
    index < countFields levels := by
  obtain ⟨field, isField, -⟩ := Option.map_eq_some_iff.mp (fieldsOf_fieldIndexIn? found)
  rw [← length_fieldsOf]
  exact (List.getElem?_eq_some_iff.mp isField).1

/-- A field of one of several levels has a number among them. -/
theorem fieldIndexIn?_isSome
    {levels : List LayoutLevel}
    {level : LayoutLevel}
    {field : FieldSlot}
    (isLevel : level ∈ levels)
    (isField : field ∈ level.fields) :
    (fieldIndexIn? field.name levels).isSome := by
  induction levels with
  | nil => cases isLevel
  | cons first ancestors inductionHypothesis =>
      rw [fieldIndexIn?]
      split
      · rfl
      · next missing =>
        obtain rfl | inherited := List.mem_cons.mp isLevel
        · have isOther := List.findIdx?_eq_none_iff.mp missing field isField
          simp at isOther
        · exact inductionHypothesis inherited

end ClassLayout

/-- The level that the file class adds to the layout of its instances. -/
def FileLibrary.level : LayoutLevel :=
  ⟨"file", fields.map fun field => ⟨field.name, field.ty⟩⟩

/-- An instance of the file class or of a class under it, with a cell of its own for each field. -/
structure Heap.IsFile (heap : Heap) (object : ObjectId) : Prop where
  inherits : FileLibrary.level ∈ (heap.object object).layout.levels
  complete : (heap.object object).fields.size = (heap.object object).layout.fieldCount
  apart : (heap.object object).fields.toList.Nodup

/-- New cells come one behind the other. -/
theorem Heap.addCells_ids
    (heap : Heap)
    (cells : List Cell) :
    (heap.addCells cells).1.toList = (List.range' heap.cells.size cells.length).map CellId.mk := by
  induction cells generalizing heap with
  | nil => rfl
  | cons cell rest inductionHypothesis =>
      simp only [addCells, Array.toList_append, inductionHypothesis, List.length_cons,
        List.range'_succ, List.map_cons]
      simp [addCell]

/-- A new instance of the file class, or of a class under it, is a file. -/
theorem Heap.isFile_newInstance
    (heap : Heap)
    {layout : ClassLayout}
    (inherits : FileLibrary.level ∈ layout.levels) :
    (heap.newInstance layout).2.IsFile (heap.newInstance layout).1 := by
  let declared := layout.allFields.map fun field => Cell.declared field.ty
  have ids := heap.addCells_ids declared
  have isNew :
      (heap.newInstance layout).2.object (heap.newInstance layout).1 =
        ⟨layout, (heap.addCells declared).1, none⟩ := by
    simp [newInstance, addObject, Heap.object, declared]
  refine ⟨?_, ?_, ?_⟩
  · rw [isNew]
    exact inherits
  · rw [isNew, ← Array.length_toList, ids]
    simp [declared, Heap.Sound.length_allFields]
  · rw [isNew, ids]
    exact List.Nodup.map (fun one other same => CellId.mk.inj same) List.nodup_range'

/-- A file has different cells for its name and for its number. -/
theorem Heap.IsFile.cells
    {heap : Heap}
    {object : ObjectId}
    (isFile : heap.IsFile object) :
    ∃ name handle,
      (heap.object object).fieldNamed? "filename" = some name ∧
        (heap.object object).fieldNamed? "handle" = some handle ∧ name ≠ handle := by
  obtain ⟨inherits, complete, apart⟩ := isFile
  generalize heap.object object = file at inherits complete apart
  have cell (field : FieldSlot) (isField : field ∈ FileLibrary.level.fields) :
      ∃ index, ∃ inside : index < file.fields.size,
        file.layout.fieldIndex? field.name = some index ∧
          file.fieldNamed? field.name = some file.fields[index] := by
    obtain ⟨index, found⟩ :=
      Option.isSome_iff_exists.mp (ClassLayout.fieldIndexIn?_isSome inherits isField)
    have inside : index < file.fields.size := complete ▸ ClassLayout.fieldIndexIn?_lt found
    refine ⟨index, inside, found, ?_⟩
    rw [Instance.fieldNamed?, ClassLayout.fieldIndex?, found, Option.bind_some,
      Array.getElem?_eq_getElem inside]
  obtain ⟨nameIndex, nameInside, isName, name⟩ :=
    cell ⟨"filename", .string⟩ (List.mem_cons_self ..)
  obtain ⟨handleIndex, handleInside, isHandle, handle⟩ :=
    cell ⟨"handle", .int⟩ (List.mem_cons_of_mem _ (List.mem_cons_self ..))
  refine ⟨_, _, name, handle, fun same => ?_⟩
  have sameIndex : nameIndex = handleIndex := by
    rw [← Array.getElem_toList nameInside, ← Array.getElem_toList handleInside] at same
    exact (List.Nodup.getElem_inj_iff apart).mp same
  subst sameIndex
  have sameName := (ClassLayout.fieldsOf_fieldIndexIn? isName).symm.trans
    (ClassLayout.fieldsOf_fieldIndexIn? isHandle)
  exact absurd (Option.some.inj sameName) (by decide)

/-! ## Entries under keys -/

section Entries

variable {α β : Type} [DecidableEq α] {key other : α}

/-- Other entries stay when those under a key are taken out. -/
theorem lookup_filter_of_ne
    (differ : other ≠ key)
    (entries : List (α × β)) :
    List.lookup other (entries.filter fun entry => entry.1 != key) = List.lookup other entries := by
  induction entries with
  | nil => rfl
  | cons entry rest inductionHypothesis =>
      obtain ⟨first, content⟩ := entry
      rw [lookup_entry, ← inductionHypothesis]
      by_cases same : first = key
      · simp [same, differ]
      · simp [lookup_entry, same]

end Entries

/-! ## The table of open files -/

namespace OpenFiles

variable {table : OpenFiles} {number other : FileHandle}

/-- An open file that is replaced is there afterwards. -/
theorem get?_set_self (file : OpenFile) :
    (table.set number file).get? number = (table.get? number).map fun _ => file := by
  obtain ⟨last, files⟩ := table
  simp only [set, get?, beq_iff_eq]
  induction files with
  | nil => rfl
  | cons entry rest inductionHypothesis =>
      obtain ⟨key, content⟩ := entry
      by_cases same : key = number
      · simp [same]
      · simp [lookup_entry, same, Ne.symm same, inductionHypothesis]

/-- The other open files stay when one is replaced. -/
theorem get?_set_of_ne
    (differ : other ≠ number)
    (file : OpenFile) :
    (table.set number file).get? other = table.get? other := by
  obtain ⟨last, files⟩ := table
  simp only [set, get?, beq_iff_eq]
  induction files with
  | nil => rfl
  | cons entry rest inductionHypothesis =>
      obtain ⟨key, content⟩ := entry
      by_cases same : key = number
      · simp [lookup_entry, same, differ, inductionHypothesis]
      · simp [lookup_entry, same, inductionHypothesis]

/-- A file is open under a number only if one was before another was put in its place. -/
theorem get?_of_set
    {file found : OpenFile}
    (listed : (table.set number file).get? other = some found) :
    ∃ former, table.get? other = some former := by
  by_cases same : other = number
  · subst same
    rw [get?_set_self] at listed
    obtain ⟨former, isFormer, -⟩ := Option.map_eq_some_iff.mp listed
    exact ⟨former, isFormer⟩
  · exact ⟨found, (get?_set_of_ne same file).symm.trans listed⟩

/-- A forgotten open file is gone. -/
theorem get?_erase_self : (table.erase number).get? number = none := by
  obtain ⟨last, files⟩ := table
  simp only [erase, get?]
  induction files with
  | nil => rfl
  | cons entry rest inductionHypothesis =>
      obtain ⟨key, content⟩ := entry
      by_cases same : key = number
      · simpa [List.filter_cons, same] using inductionHypothesis
      · simpa [List.filter_cons, lookup_entry, same, Ne.symm same] using inductionHypothesis

/-- The other open files stay when one is forgotten. -/
theorem get?_erase_of_ne
    (differ : other ≠ number) :
    (table.erase number).get? other = table.get? other :=
  lookup_filter_of_ne differ table.files

/-- A new open file comes behind those that are there. -/
theorem get?_insert (file : OpenFile) :
    (table.insert file).2.get? other =
      (table.get? other).or (if other = (table.insert file).1 then some file else none) := by
  simp only [insert, get?, List.lookup_append, lookup_entry, List.lookup_nil]
  rfl

/-- The table without the open file that an instance owned. -/
def without (table : OpenFiles) (owned : Option FileHandle) : OpenFiles :=
  match owned with
  | some number => table.erase number
  | none => table

/-- The numbers that are given out do not depend on what is forgotten. -/
theorem last_without (owned : Option FileHandle) : (table.without owned).last = table.last := by
  cases owned <;> rfl

/-- The open files that an instance did not own stay. -/
theorem get?_without
    {owned : Option FileHandle}
    (differ : owned ≠ some other) :
    (table.without owned).get? other = table.get? other := by
  cases owned with
  | none => rfl
  | some number => exact get?_erase_of_ne fun same => differ (congrArg some same.symm)

/-- What is left was there before. -/
theorem get?_of_without
    {owned : Option FileHandle}
    {file : OpenFile}
    (left : (table.without owned).get? other = some file) :
    table.get? other = some file := by
  cases owned with
  | none => exact left
  | some number =>
      by_cases same : other = number
      · subst same
        cases get?_erase_self.symm.trans left
      · rw [← get?_erase_of_ne same]
        exact left

end OpenFiles

/-! ## Owners of open files -/

namespace World

/-- The world in which an instance owns another open file, or none; the former one is closed. -/
def setOwned (world : World) (this : ObjectId) (owned : Option FileHandle) : World :=
  { heap := world.heap.setObject this { world.heap.object this with openFile := owned }
    host :=
      { world.host with
        openFiles := world.host.openFiles.without (world.heap.object this).openFile } }

/-- The world in which there is another open file under a number, and another store. -/
def setFile (world : World) (number : FileHandle) (file : OpenFile) (files : FileAccess) : World :=
  ⟨world.heap,
    { world.host with files, openFiles := world.host.openFiles.set number file }⟩

variable {world : World} {this other : ObjectId} {owned : Option FileHandle}

/-- The instance whose owned file is changed is the same in everything else. -/
theorem object_setOwned :
    (world.setOwned this owned).heap.object this =
      { world.heap.object this with
        openFile := if this.index < world.heap.objects.size then owned else none } := by
  by_cases known : this.index < world.heap.objects.size
  · simp [setOwned, Heap.object, Heap.setObject, known]
  · simp only [setOwned, Heap.object, Heap.setObject, known, if_false, Array.getElem?_setIfInBounds]
    simp [Array.getElem?_eq_none (Nat.le_of_not_lt known)]
    rfl

/-- The other instances stay. -/
theorem object_setOwned_of_ne
    (differ : other ≠ this) :
    (world.setOwned this owned).heap.object other = world.heap.object other := by
  have apart : this.index ≠ other.index := fun same =>
    differ (by cases this; cases other; exact congrArg ObjectId.mk same.symm)
  simp [setOwned, Heap.object, Heap.setObject, Array.getElem?_setIfInBounds_ne apart]

end World

end BotScript
