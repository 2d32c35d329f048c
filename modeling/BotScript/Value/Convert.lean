import BotScript.Value.Text

namespace BotScript

/-!
# Conversion and storage

A store converts the incoming value to the type of the cell: integers wrap,
floating-point numbers are truncated to integers or rounded to single
precision, and everything but `void` has a text form.
-/

/-- An integer wrapped to the width and sign of an integer type. -/
def Ty.wrap (ty : Ty) (value : Int64) : Int64 :=
  match ty with
  | .byte => value.toInt8.toInt64
  | .short => value.toInt16.toInt64
  | .char => Int64.ofNat value.toUInt64.toUInt32.toNat
  | .int => value.toInt32.toInt64
  | _ => value

/-- The value a cell of a type holds by default. -/
def Ty.zero : Ty → Value
  | .boolean => .bool false
  | .byte | .short | .char | .int | .long => .int 0
  | .float | .double => .float Double.zero
  | .string => .str ""
  | .void => .void
  | .null | .array _ | .object _ => .null

namespace Heap

/--
A value of one static type, converted for a cell of another type.  A reference
to an instance of an unrelated class becomes null.  One cell may be in use.
-/
def convertWhile
    (heap : Heap) (inUse : Option CellId) (value : Value) (source target : Ty) :
    Checked Value :=
  match value, target with
  | .nan, .array _ | .nan, .object _ | .nan, .null => .fail .badType1
  | .nan, .string => .ok (.str "nan")
  | .nan, _ => .ok .nan
  | _, .void => .ok .void
  | .bool value, .boolean => .ok (.bool value)
  | .int value, .float => .ok (.float (Double.ofInt64Single value))
  | .float value, .float => .ok (.float value.toSingle)
  | .int value, .double => .ok (.float (Double.ofInt64 value))
  | .float value, .double => .ok (.float value)
  | .str value, .string => .ok (.str value)
  | .void, .string => .fail .badType1
  | value, .string => (heap.textWithin inUse heap.textDepth value source).map .str
  | .null, .null | .null, .array _ | .null, .object _ => .ok .null
  | .array id, .array _ => .ok (.array id)
  | .object id, .object className =>
      .ok (if (heap.object id).layout.isA className then .object id else .null)
  | .int value, target =>
      if target.isInteger then .ok (.int (target.wrap value)) else .fail .badType1
  | .float value, target =>
      if target.isInteger then .ok (.int (target.wrap value.toInt64)) else .fail .badType1
  | _, _ => .fail .badType1

/-- A value of one static type, converted to another type. -/
def convert (heap : Heap) (value : Value) (source target : Ty) : Checked Value :=
  heap.convertWhile none value source target

end Heap

namespace Cell

/-- A cell that holds a value as its default. -/
def withDefault (ty : Ty) (value : Value) : Cell :=
  ⟨ty, value, .defaulted⟩

/-- A cell that holds the zero of its type as its default. -/
def zeroed (ty : Ty) : Cell :=
  withDefault ty ty.zero

/-- A cell that holds an assigned value of its type. -/
def withValue (ty : Ty) (value : Value) : Cell :=
  ⟨ty, value, .defined⟩

/-- The value of a cell; reading a cell without one is an error. -/
def get (cell : Cell) : Except ErrorCode Value :=
  if cell.state == .undefined then .error .notInitialized else .ok cell.value

/-- A cell after the store of a value of a static type, while it is in use at a position. -/
def stored
    (cell : Cell) (heap : Heap) (inUse : Option CellId) (value : Value) (source : Ty) :
    Checked Cell :=
  (heap.convertWhile inUse value source cell.ty).map fun value => ⟨cell.ty, value, .defined⟩

end Cell

namespace Heap

/-- Store a value of a static type into a cell. -/
def store (heap : Heap) (id : CellId) (value : Value) (source : Ty) : Checked Heap :=
  ((heap.cell id).stored heap (some id) value source).map (heap.setCell id)

/-- Store a value of the type of the cell. -/
def assign (heap : Heap) (id : CellId) (value : Value) : Checked Heap :=
  heap.store id value (heap.cell id).ty

/-- The value of a cell on the heap. -/
def read (heap : Heap) (id : CellId) : Except ErrorCode Value :=
  (heap.cell id).get

end Heap

end BotScript
