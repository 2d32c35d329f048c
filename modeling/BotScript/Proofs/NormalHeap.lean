import BotScript.Machine.Run
import BotScript.Proofs.HeapSoundness

namespace BotScript

/-!
# Normal cells

A store converts what it is given to the type of the cell.  The other ways in
which cells are written put a value in as it is: declared and zeroed cells, the
elements of array literals, and the arrays of declarations with limits.  All of
them leave a cell of a scalar type without a value, or with a value of that type
which another store of it would not change.
-/

/-! ## Values of a type -/

/-- A value is one that a cell of a type can hold; only scalar types say anything of it. -/
def Ty.Holds (ty : Ty) (value : Value) : Prop :=
  match ty with
  | .boolean => value = .nan ∨ ∃ content, value = .bool content
  | .byte | .short | .char | .int | .long =>
      value = .nan ∨ ∃ content, value = .int content ∧ ty.wrap content = content
  | .float | .double => value = .nan ∨ ∃ content, value = .float content
  | .string => ∃ content, value = .str content
  | .void | .null | .array _ | .object _ => True

/-- A cell has no value yet, or one that a cell of its type can hold. -/
def Cell.Normal (cell : Cell) : Prop :=
  cell.state = .undefined ∨ cell.ty.Holds cell.value

/-- All cells of a heap are normal. -/
def Heap.Normal (heap : Heap) : Prop :=
  ∀ cell ∈ heap.cells, cell.Normal

namespace Ty

/-- An integer that has been wrapped stays what it is. -/
theorem wrap_wrap
    (ty : Ty)
    (content : Int64) :
    ty.wrap (ty.wrap content) = ty.wrap content := by
  cases ty with
  | char =>
      have narrow (number : UInt32) :
          (Int64.ofNat number.toNat).toUInt64.toUInt32 = number := by
        change (UInt64.ofNat number.toNat).toUInt32 = number
        simp
      simp only [wrap, narrow]
  | _ => simp [wrap]

/-- What an array or an instance can be put into has no scalar type. -/
theorem holds_of_isReference
    {ty : Ty}
    (isReference : ty.isReference = true)
    (value : Value) :
    ty.Holds value := by
  cases ty <;> trivial

/-- Every type can hold its zero. -/
theorem holds_zero
    (ty : Ty) :
    ty.Holds ty.zero := by
  cases ty with
  | char => exact .inr ⟨0, rfl, rfl⟩
  | _ => simp [Holds, zero, wrap]

end Ty

/-- A converted value is one that a cell of the target type can hold. -/
theorem Heap.convertWhile_holds
    {heap : Heap}
    {inUse : Option CellId}
    {value result : Value}
    {source target : Ty}
    (converted : heap.convertWhile inUse value source target = .ok result) :
    target.Holds result := by
  have text (outcome : Checked String) (texted : outcome.map Value.str = .ok result) :
      Ty.string.Holds result := by
    cases outcome with
    | ok text => cases texted; exact ⟨text, rfl⟩
    | error fault => cases texted
  unfold Heap.convertWhile at converted
  cases value <;> cases target <;> dsimp only at converted
  all_goals first
    | trivial
    | exact text _ converted
    | (cases converted; done)
    | (cases converted; simp [Ty.Holds]; done)
    | (cases converted; exact .inr ⟨_, rfl, Ty.wrap_wrap _ _⟩)

/-! ## Cells -/

namespace Cell

/-- What a store leaves is normal. -/
theorem stored_normal
    {cell result : Cell}
    {heap : Heap}
    {inUse : Option CellId}
    {value : Value}
    {source : Ty}
    (stored : cell.stored heap inUse value source = .ok result) :
    result.Normal := by
  unfold Cell.stored at stored
  cases isConverted : heap.convertWhile inUse value source cell.ty with
  | error fault =>
      rw [isConverted] at stored
      cases stored
  | ok converted =>
      rw [isConverted] at stored
      cases stored
      exact .inr (Heap.convertWhile_holds isConverted)

/-- A declared cell is normal. -/
theorem declared_normal
    (ty : Ty) :
    (Cell.declared ty).Normal := by
  unfold Cell.declared
  split
  · next isReference => exact .inr (Ty.holds_of_isReference isReference _)
  · exact .inl rfl

/-- A cell with the zero of its type is normal. -/
theorem zeroed_normal
    (ty : Ty) :
    (Cell.zeroed ty).Normal :=
  .inr ty.holds_zero

end Cell

/-! ## Heaps -/

namespace Heap.Normal

variable {heap : Heap}
  (normal : heap.Normal)

include normal

/-- The cell at a position is normal; where there is none, it has no value. -/
theorem cell
    (id : CellId) :
    (heap.cell id).Normal := by
  unfold Heap.cell
  cases found : heap.cells[id.index]? with
  | none => exact .inl rfl
  | some cell => exact normal cell (Array.mem_of_getElem? found)

/-- Only the cells matter. -/
theorem ofCells
    {after : Heap}
    (same : after.cells = heap.cells) :
    after.Normal := by
  unfold Heap.Normal
  rwa [same]

/-- A cell is placed. -/
theorem addCell
    {cell : Cell}
    (fits : cell.Normal) :
    (heap.addCell cell).2.Normal :=
  Array.forall_mem_push normal fits

/-- A cell is replaced. -/
theorem setCell
    {cell : Cell}
    (id : CellId)
    (fits : cell.Normal) :
    (heap.setCell id cell).Normal :=
  Array.forall_mem_set normal fits

/-- A value is stored. -/
theorem store
    {after : Heap}
    {id : CellId}
    {value : Value}
    {source : Ty}
    (stored : heap.store id value source = .ok after) :
    after.Normal := by
  unfold Heap.store at stored
  cases isStored : (heap.cell id).stored heap (some id) value source with
  | error fault =>
      rw [isStored] at stored
      cases stored
  | ok cell =>
      rw [isStored] at stored
      cases stored
      exact normal.setCell id (Cell.stored_normal isStored)

/-- Several cells are placed. -/
theorem addCells
    {cells : List Cell}
    (fit : ∀ cell ∈ cells, cell.Normal) :
    (heap.addCells cells).2.Normal := by
  induction cells generalizing heap with
  | nil => exact normal
  | cons first rest inductionHypothesis =>
      obtain ⟨fits, fit⟩ := List.forall_mem_cons.mp fit
      exact inductionHypothesis (normal.addCell fits) fit

/-- Freshly declared cells are placed. -/
theorem addDeclared
    {α : Type}
    (entries : List α)
    (ty : α → Ty) :
    (heap.addCells (entries.map fun entry => Cell.declared (ty entry))).2.Normal := by
  refine normal.addCells fun cell isNew => ?_
  obtain ⟨entry, -, rfl⟩ := List.mem_map.mp isNew
  exact Cell.declared_normal _

/-- An instance is placed with its fields. -/
theorem newInstance
    (layout : ClassLayout) :
    (heap.newInstance layout).2.Normal :=
  normal.addDeclared layout.allFields (·.ty)

/-- The content of a declared variable is normal. -/
theorem freshCell
    (ty : Ty)
    (limits : Limits) :
    (heap.freshCell ty limits).2.Normal ∧ (heap.freshCell ty limits).1.Normal := by
  unfold Heap.freshCell
  split
  · split
    · exact ⟨normal, Cell.declared_normal _⟩
    · exact ⟨normal.ofCells rfl, .inr trivial⟩
  · exact ⟨normal, Cell.declared_normal _⟩

/-- A declared variable is placed. -/
theorem addFresh
    (ty : Ty)
    (limits : Limits) :
    (heap.addFresh ty limits).2.Normal :=
  (normal.freshCell ty limits).1.addCell (normal.freshCell ty limits).2

/-- A default element is placed. -/
theorem newElement
    (array : ArrayData) :
    (heap.newElement array).2.Normal := by
  unfold Heap.newElement
  split
  · next inner isArray => exact addCell (normal.ofCells rfl) (.inr (by rw [isArray]; trivial))
  · exact normal.addCell (Cell.zeroed_normal _)

/-- An array grows. -/
theorem appendElements
    (id : ArrayId)
    (count : Nat) :
    (heap.appendElements id count).Normal := by
  induction count generalizing heap with
  | zero => exact normal
  | succ count inductionHypothesis =>
      exact inductionHypothesis ((normal.newElement (heap.array id)).ofCells rfl)

/-- An array grows up to an element. -/
theorem growTo
    (id : ArrayId)
    (position : Nat) :
    (heap.growTo id position).2.Normal :=
  normal.appendElements id _

/-- An array takes over cells. -/
theorem pushElements
    {after : Heap}
    {id : ArrayId}
    {cells : List CellId}
    (pushed : heap.pushElements id cells = .ok after) :
    after.Normal := by
  induction cells generalizing heap with
  | nil =>
      cases pushed
      exact normal
  | cons cell rest inductionHypothesis =>
      unfold Heap.pushElements Heap.pushElement at pushed
      dsimp only at pushed
      split at pushed
      · cases pushed
      · have longer : (heap.setArray id { heap.array id with
            items := (heap.array id).items.push cell }).Normal :=
          normal.ofCells rfl
        exact inductionHypothesis longer pushed

/-- An initial value goes into an array with the declared limits. -/
theorem bounded
    {value : Value}
    {limits : Limits}
    {placed : Value × Heap}
    (isBounded : heap.bounded value limits = .ok placed) :
    placed.2.Normal := by
  unfold Heap.bounded at isBounded
  split at isBounded
  · next source limit rest =>
    dsimp only at isBounded
    cases pushed :
        (heap.addArray (.empty (heap.array source).element (some limit :: rest))).2.pushElements
          (heap.addArray (.empty (heap.array source).element (some limit :: rest))).1
          (heap.array source).items.toList with
    | error code =>
        rw [pushed] at isBounded
        cases isBounded
    | ok filled =>
        rw [pushed] at isBounded
        cases isBounded
        have added : (heap.addArray
            (.empty (heap.array source).element (some limit :: rest))).2.Normal :=
          normal.ofCells rfl
        exact added.pushElements pushed
  · cases isBounded
    exact normal

/-- The cells of static fields are placed. -/
theorem addStatics
    (fields : List FieldDef) :
    (heap.addStatics fields).2.Normal := by
  induction fields generalizing heap with
  | nil => exact normal
  | cons field rest inductionHypothesis =>
      exact inductionHypothesis (normal.addFresh field.ty field.limits)

/-- The cells of the static fields of several classes are placed. -/
theorem addClassStatics
    (classes : List ClassDef) :
    (heap.addClassStatics classes).2.Normal := by
  induction classes generalizing heap with
  | nil => exact normal
  | cons entry rest inductionHypothesis =>
      exact inductionHypothesis (normal.addStatics entry.statics)

end Heap.Normal

/-! ## Writes of the host -/

/--
Changes of a heap by a host that writes cells in three ways only: it declares new
ones, stores values into them, and declares them anew.
-/
inductive Heap.Writes : Heap → Heap → Prop where
  | refl (heap : Heap) : Writes heap heap
  | declare
      {before after : Heap}
      (ty : Ty) :
      Writes before after →
      Writes before (after.addCell (.declared ty)).2
  | store
      {before after last : Heap}
      {id : CellId}
      {value : Value}
      {source : Ty} :
      Writes before after →
      after.store id value source = .ok last →
      Writes before last
  | redeclare
      {before after : Heap}
      (id : CellId)
      (ty : Ty) :
      Writes before after →
      Writes before (after.setCell id (.declared ty))
  | elsewhere
      {before after last : Heap} :
      Writes before after →
      last.cells = after.cells →
      Writes before last

namespace Heap.Writes

variable {before between after : Heap}

/-- Changes one after the other. -/
theorem trans
    (first : Writes before between)
    (second : Writes between after) :
    Writes before after := by
  induction second with
  | refl => exact first
  | declare ty _ inductionHypothesis => exact .declare ty inductionHypothesis
  | store _ stored inductionHypothesis => exact .store inductionHypothesis stored
  | redeclare id ty _ inductionHypothesis => exact .redeclare id ty inductionHypothesis
  | elsewhere _ same inductionHypothesis => exact .elsewhere inductionHypothesis same

/-- Cells that are written to stay normal. -/
theorem normal
    (writes : Writes before after)
    (normal : before.Normal) :
    after.Normal := by
  induction writes with
  | refl => exact normal
  | declare ty _ inductionHypothesis => exact inductionHypothesis.addCell (Cell.declared_normal ty)
  | store _ stored inductionHypothesis => exact inductionHypothesis.store stored
  | redeclare id ty _ inductionHypothesis =>
      exact inductionHypothesis.setCell id (Cell.declared_normal ty)
  | elsewhere _ same inductionHypothesis => exact inductionHypothesis.ofCells same

end Heap.Writes

end BotScript
