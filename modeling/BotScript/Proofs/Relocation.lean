import BotScript.Machine.Setup
import Mathlib.Data.Finset.Card
import Mathlib.Logic.Function.Basic

namespace BotScript

/-!
# Moving the parts of a heap

A relocation says where the parts of one heap, the inner one, lie on another
heap, the outer one.  Different parts stay different, and what refers to parts
is renamed along with them.  The outer heap may have further parts, which stay
idle: nothing that has been moved refers to them.
-/

/-- Where the parts of an inner heap lie on an outer heap, and what lies elsewhere. -/
structure Relocation where
  cellAt : Nat → Nat
  arrayAt : Nat → Nat
  objectAt : Nat → Nat
  /-- The outer heap at the positions where no part of the inner heap lies. -/
  idle : Heap
  cellAt_injective : Function.Injective cellAt
  arrayAt_injective : Function.Injective arrayAt
  objectAt_injective : Function.Injective objectAt

namespace Relocation

/-- The relocation that leaves every part where it is. -/
def stay : Relocation where
  cellAt := id
  arrayAt := id
  objectAt := id
  idle := {}
  cellAt_injective := Function.injective_id
  arrayAt_injective := Function.injective_id
  objectAt_injective := Function.injective_id

/-- The position of a cell on the outer heap. -/
def cell (shift : Relocation) (id : CellId) : CellId :=
  ⟨shift.cellAt id.index⟩

/-- The position of an array on the outer heap. -/
def array (shift : Relocation) (id : ArrayId) : ArrayId :=
  ⟨shift.arrayAt id.index⟩

/-- The position of an instance on the outer heap. -/
def object (shift : Relocation) (id : ObjectId) : ObjectId :=
  ⟨shift.objectAt id.index⟩

/-- A value on the outer heap. -/
def value (shift : Relocation) : Value → Value
  | .array id => .array (shift.array id)
  | .object id => .object (shift.object id)
  | other => other

/-- A completion on the outer heap. -/
def completion (shift : Relocation) : Completion → Completion
  | .value content => .value (shift.value content)
  | .place id => .place (shift.cell id)
  | .returned content => .returned (shift.value content)
  | other => other

/-- The contents of a cell on the outer heap. -/
def content (shift : Relocation) (cell : Cell) : Cell :=
  { cell with value := shift.value cell.value }

/-- An array on the outer heap. -/
def elements (shift : Relocation) (array : ArrayData) : ArrayData :=
  { array with items := array.items.map shift.cell }

/-- An instance on the outer heap. -/
def fields (shift : Relocation) (object : Instance) : Instance :=
  { object with fields := object.fields.map shift.cell }

/-- A frame whose operands lie on the outer heap. -/
def frame (shift : Relocation) (frame : Frame) : Frame :=
  { frame with
    values := frame.values.map shift.value
    place := frame.place.map shift.cell
    pending := frame.pending.map shift.completion }

/-- An activation whose variables lie on the outer heap. -/
def activation (shift : Relocation) (activation : Activation) : Activation :=
  { activation with
    this := activation.this.map shift.object
    locals := activation.locals.map shift.cell }

/-- A move on the outer heap. -/
def move (shift : Relocation) : Move → Move
  | .push frame child => .push (shift.frame frame) (shift.frame child)
  | .tick frame => .tick (shift.frame frame)
  | .complete completion => .complete (shift.completion completion)

/-- An interruption on the outer heap. -/
def interrupt (shift : Relocation) : Interrupt → Interrupt
  | .fault fault => .fault fault
  | .propagate completion => .propagate (shift.completion completion)

section

variable {shift : Relocation}

@[simp] theorem cell_index (id : CellId) : (shift.cell id).index = shift.cellAt id.index := rfl
@[simp] theorem array_index (id : ArrayId) :
    (shift.array id).index = shift.arrayAt id.index := rfl
@[simp] theorem object_index (id : ObjectId) :
    (shift.object id).index = shift.objectAt id.index := rfl

@[simp] theorem value_void : shift.value .void = .void := rfl
@[simp] theorem value_bool (flag : Bool) : shift.value (.bool flag) = .bool flag := rfl
@[simp] theorem value_int (number : Int64) : shift.value (.int number) = .int number := rfl
@[simp] theorem value_float (number : Double) :
    shift.value (.float number) = .float number := rfl
@[simp] theorem value_str (text : String) : shift.value (.str text) = .str text := rfl
@[simp] theorem value_nan : shift.value .nan = .nan := rfl
@[simp] theorem value_null : shift.value .null = .null := rfl
@[simp] theorem value_array (id : ArrayId) :
    shift.value (.array id) = .array (shift.array id) := rfl
@[simp] theorem value_object (id : ObjectId) :
    shift.value (.object id) = .object (shift.object id) := rfl

@[simp] theorem completion_normal : shift.completion .normal = .normal := rfl
@[simp] theorem completion_value (content : Value) :
    shift.completion (.value content) = .value (shift.value content) := rfl
@[simp] theorem completion_place (id : CellId) :
    shift.completion (.place id) = .place (shift.cell id) := rfl
@[simp] theorem completion_breakTo (label : Option String) :
    shift.completion (.breakTo label) = .breakTo label := rfl
@[simp] theorem completion_continueTo (label : Option String) :
    shift.completion (.continueTo label) = .continueTo label := rfl
@[simp] theorem completion_returned (content : Value) :
    shift.completion (.returned content) = .returned (shift.value content) := rfl
@[simp] theorem completion_thrown (error : RuntimeError) :
    shift.completion (.thrown error) = .thrown error := rfl

@[simp] theorem content_ty (cell : Cell) : (shift.content cell).ty = cell.ty := rfl
@[simp] theorem content_state (cell : Cell) : (shift.content cell).state = cell.state := rfl
@[simp] theorem content_value (cell : Cell) :
    (shift.content cell).value = shift.value cell.value := rfl
@[simp] theorem elements_element (array : ArrayData) :
    (shift.elements array).element = array.element := rfl
@[simp] theorem elements_limits (array : ArrayData) :
    (shift.elements array).limits = array.limits := rfl
@[simp] theorem elements_items (array : ArrayData) :
    (shift.elements array).items = array.items.map shift.cell := rfl
@[simp] theorem fields_layout (object : Instance) :
    (shift.fields object).layout = object.layout := rfl
@[simp] theorem fields_fields (object : Instance) :
    (shift.fields object).fields = object.fields.map shift.cell := rfl
@[simp] theorem fields_openFile (object : Instance) :
    (shift.fields object).openFile = object.openFile := rfl

@[simp] theorem frame_node (frame : Frame) : (shift.frame frame).node = frame.node := rfl
@[simp] theorem frame_state (frame : Frame) : (shift.frame frame).state = frame.state := rfl
@[simp] theorem frame_cursor (frame : Frame) :
    (shift.frame frame).cursor = frame.cursor := rfl
@[simp] theorem frame_aux (frame : Frame) : (shift.frame frame).aux = frame.aux := rfl
@[simp] theorem frame_act (frame : Frame) : (shift.frame frame).act = frame.act := rfl
@[simp] theorem frame_values (frame : Frame) :
    (shift.frame frame).values = frame.values.map shift.value := rfl
@[simp] theorem frame_place (frame : Frame) :
    (shift.frame frame).place = frame.place.map shift.cell := rfl
@[simp] theorem frame_pending (frame : Frame) :
    (shift.frame frame).pending = frame.pending.map shift.completion := rfl

@[simp] theorem frame_enter (node : Node) (act : UInt32) :
    shift.frame (.enter node act) = .enter node act := rfl

@[simp] theorem content_declared (ty : Ty) :
    shift.content (.declared ty) = .declared ty := by
  unfold Cell.declared
  split <;> rfl
@[simp] theorem content_withDefault (ty : Ty) (value : Value) :
    shift.content (.withDefault ty value) = .withDefault ty (shift.value value) := rfl
@[simp] theorem content_zeroed (ty : Ty) : shift.content (.zeroed ty) = .zeroed ty := by
  cases ty <;> rfl
@[simp] theorem content_withValue (ty : Ty) (value : Value) :
    shift.content (.withValue ty value) = .withValue ty (shift.value value) := rfl
@[simp] theorem elements_empty (element : Ty) (limits : Limits) :
    shift.elements (.empty element limits) = .empty element limits := by
  simp [elements, ArrayData.empty]
@[simp] theorem elements_admits (array : ArrayData) (index : Nat) :
    (shift.elements array).admits index = array.admits index := rfl

end

section

variable {shift : Relocation}

@[simp] theorem value_int? (value : Value) : (shift.value value).int? = value.int? := by
  cases value <;> rfl
@[simp] theorem value_float? (value : Value) :
    (shift.value value).float? = value.float? := by
  cases value <;> rfl
@[simp] theorem value_bool? (value : Value) : (shift.value value).bool? = value.bool? := by
  cases value <;> rfl
@[simp] theorem value_str? (value : Value) : (shift.value value).str? = value.str? := by
  cases value <;> rfl
@[simp] theorem value_truth (value : Value) : (shift.value value).truth = value.truth := by
  cases value <;> rfl
@[simp] theorem value_isNan (value : Value) :
    (shift.value value == .nan) = (value == .nan) := by
  cases value <;> rfl
@[simp] theorem value_ofLiteral (literal : LiteralValue) :
    shift.value (.ofLiteral literal) = .ofLiteral literal := by
  cases literal <;> rfl
@[simp] theorem completion_isAbrupt (completion : Completion) :
    (shift.completion completion).isAbrupt = completion.isAbrupt := by
  cases completion <;> rfl

end

/-- Without a move cells stay where they are. -/
@[simp] theorem stay_cell : stay.cell = id := rfl

/-- Without a move arrays stay where they are. -/
@[simp] theorem stay_array : stay.array = id := rfl

/-- Without a move instances stay where they are. -/
@[simp] theorem stay_object : stay.object = id := rfl

/-- Without a move values stay the same. -/
@[simp] theorem stay_value : stay.value = id := by
  funext value
  cases value <;> rfl

/-- Without a move completions stay the same. -/
@[simp] theorem stay_completion : stay.completion = id := by
  funext completion
  cases completion <;> simp [completion]

/-- Without a move the contents of cells stay the same. -/
@[simp] theorem stay_content : stay.content = id := by
  funext cell
  simp [content]

/-- Without a move the items of arrays stay the same. -/
@[simp] theorem stay_elements : stay.elements = id := by
  funext array
  simp [elements]

/-- Without a move the fields of instances stay the same. -/
@[simp] theorem stay_fields : stay.fields = id := by
  funext object
  simp [fields]

/-- Without a move the moves of frames stay the same. -/
@[simp] theorem stay_move : stay.move = id := by
  funext move
  cases move <;> simp [Relocation.move, Relocation.frame]

/-- Without a move frames stay the same. -/
@[simp] theorem stay_frame : stay.frame = id := by
  funext frame
  simp [Relocation.frame]

/-- Without a move activations stay the same. -/
@[simp] theorem stay_activation : stay.activation = id := by
  funext activation
  simp [Relocation.activation]

/-- Different cells stay different. -/
theorem cell_injective
    (shift : Relocation) :
    Function.Injective shift.cell := by
  rintro ⟨first⟩ ⟨second⟩ same
  simpa [cell, shift.cellAt_injective.eq_iff] using same

/-- Different arrays stay different. -/
theorem array_injective
    (shift : Relocation) :
    Function.Injective shift.array := by
  rintro ⟨first⟩ ⟨second⟩ same
  simpa [array, shift.arrayAt_injective.eq_iff] using same

/-- Different instances stay different. -/
theorem object_injective
    (shift : Relocation) :
    Function.Injective shift.object := by
  rintro ⟨first⟩ ⟨second⟩ same
  simpa [object, shift.objectAt_injective.eq_iff] using same

/-- Two values are the same, or equal as numbers, exactly when they are after a move. -/
@[simp] theorem value_equals
    (shift : Relocation)
    (first second : Value) :
    (shift.value first).equals (shift.value second) = first.equals second := by
  cases first <;> cases second <;>
    simp [Value.equals, beq_eq_decide, shift.array_injective.eq_iff,
      shift.object_injective.eq_iff]

end Relocation

/-!
## Tables
-/

/--
The entries of an inner table lie at shifted positions of an outer table, under
new names, and new entries of both tables will as well.  The other entries of
the outer table are known to be idle.
-/
structure TableEmbeds
    {α : Type} (positions : Nat → Nat) (rename : α → α) (idle : Nat → Option α)
    (inner outer : Array α) :
    Prop where
  entry : ∀ index, outer[positions index]? = inner[index]?.map rename
  fresh : ∀ count, positions (inner.size + count) = outer.size + count
  idle : ∀ index, (∀ origin, positions origin ≠ index) → outer[index]? = idle index

namespace TableEmbeds

variable
  {α : Type} {positions : Nat → Nat} {rename : α → α} {idle : Nat → Option α}
  {inner outer : Array α}

section

variable (embeds : TableEmbeds positions rename idle inner outer)

include embeds

/-- The next free position of the inner table is that of the outer one. -/
theorem next :
    positions inner.size = outer.size :=
  embeds.fresh 0

/-- A position is in use on both tables or on none. -/
theorem lt_iff
    (index : Nat) :
    positions index < outer.size ↔ index < inner.size := by
  have entry := embeds.entry index
  constructor
  · intro inside
    by_contra outside
    rw [Array.getElem?_eq_getElem inside, Array.getElem?_eq_none (by omega)] at entry
    simp at entry
  · intro inside
    by_contra outside
    rw [Array.getElem?_eq_none (by omega), Array.getElem?_eq_getElem inside] at entry
    simp at entry

/-- The inner table has no more entries than the outer one. -/
theorem size_le
    (injective : Function.Injective positions) :
    inner.size ≤ outer.size := by
  have within :=
    Finset.card_le_card_of_injOn (s := Finset.range inner.size) (t := Finset.range outer.size)
      positions
      (fun index inside => by simpa [embeds.lt_iff] using inside)
      injective.injOn
  simpa using within

/-- An entry added to both tables. -/
theorem push
    (entry : α) :
    TableEmbeds positions rename idle (inner.push entry) (outer.push (rename entry)) where
  entry index := by
    rw [Array.getElem?_push, Array.getElem?_push]
    by_cases last : index = inner.size
    · simp [last, embeds.next]
    · have other : positions index ≠ outer.size := by
        intro same
        rcases Nat.lt_trichotomy index inner.size with before | same | behind
        · have inside := (embeds.lt_iff index).mpr before
          omega
        · exact last same
        · obtain ⟨count, rfl⟩ := Nat.exists_eq_add_of_lt behind
          have fresh := embeds.fresh (count + 1)
          rw [← Nat.add_assoc] at fresh
          omega
      simp [last, other, embeds.entry]
  fresh count := by
    simp only [Array.size_push, Nat.add_assoc]
    exact embeds.fresh (1 + count)
  idle index stray := by
    have other : index ≠ outer.size := fun same => stray inner.size (embeds.next.trans same.symm)
    rw [Array.getElem?_push, if_neg other, embeds.idle index stray]

/-- An entry replaced on both tables. -/
theorem set
    (injective : Function.Injective positions)
    (index : Nat)
    (entry : α) :
    TableEmbeds positions rename idle
      (inner.setIfInBounds index entry)
      (outer.setIfInBounds (positions index) (rename entry)) where
  entry other := by
    simp only [Array.getElem?_setIfInBounds, injective.eq_iff, embeds.lt_iff]
    split
    · split <;> simp
    · exact embeds.entry other
  fresh := by simpa using embeds.fresh
  idle other stray := by
    rw [Array.getElem?_setIfInBounds, if_neg (stray index), embeds.idle other stray]

/-- The entry at a position, or a default that the renaming leaves alone. -/
theorem getD
    (index : Nat)
    {missing : α}
    (kept : rename missing = missing) :
    (outer[positions index]?).getD missing = rename ((inner[index]?).getD missing) := by
  rw [embeds.entry]
  cases inner[index]? <;> simp [kept]

end

/-- A table lies in itself when nothing moves. -/
theorem refl
    (entries : Array α) :
    TableEmbeds id id idle entries entries where
  entry := by simp
  fresh := by simp
  idle index stray := absurd rfl (stray index)

end TableEmbeds

end BotScript
