import BotScript.Tree.Basic

namespace BotScript

/-!
# Values, cells and the heap

Values are copied; arrays and instances live on the heap and are shared by
reference.  Every variable, field and array element is a cell of its own on the
heap, so two references are the same exactly when their positions are.
-/

/-- The position of a cell on the heap. -/
structure CellId where
  index : Nat
  deriving Repr, DecidableEq, Inhabited

/-- The position of an array on the heap. -/
structure ArrayId where
  index : Nat
  deriving Repr, DecidableEq, Inhabited

/-- The position of an instance on the heap. -/
structure ObjectId where
  index : Nat
  deriving Repr, DecidableEq, Inhabited

/--
A value at run time.  All integer types share `int` and both floating types
share `float`; a store brings the number to the declared width.  `nan` is the
mark of the language for "no number", which any scalar cell can hold.
-/
inductive Value where
  | void
  | bool (value : Bool)
  | int (value : Int64)
  | float (value : Double)
  | str (value : String)
  | nan
  | null
  | array (array : ArrayId)
  | object (object : ObjectId)
  deriving Repr, DecidableEq, Inhabited

namespace Value

/-- The truth value a value holds. -/
def bool? : Value → Option Bool
  | .bool value => some value
  | _ => none

/-- The integer a number stands for; a floating-point number is truncated. -/
def int? : Value → Option Int64
  | .int value => some value
  | .float value => some value.toInt64
  | _ => none

/-- The floating-point number a number stands for. -/
def float? : Value → Option Double
  | .int value => some (Double.ofInt64 value)
  | .float value => some value
  | _ => none

/-- The text a value holds. -/
def str? : Value → Option String
  | .str value => some value
  | _ => none

/-- The short name of a value's form. -/
def formName : Value → String
  | .void => "void"
  | .bool _ => "bool"
  | .int _ => "int"
  | .float _ => "float"
  | .str _ => "string"
  | .nan => "nan"
  | .null => "null"
  | .array _ => "array"
  | .object _ => "object"

/-- Whether two values are equal: numbers by value, arrays and instances by identity. -/
def equals : Value → Value → Bool
  | .float left, .float right => left.equals right
  | left, right => left == right

/-- The value of a literal. -/
def ofLiteral : LiteralValue → Value
  | .bool value => .bool value
  | .int value => .int value
  | .float value => .float value
  | .str value => .str value
  | .null => .null
  | .nan => .nan

end Value

/-- How a cell came by its value. -/
inductive InitState where
  /-- Declared without a value; reading it is an error. -/
  | undefined
  /-- Holds the default of its type. -/
  | defaulted
  /-- Assigned. -/
  | defined
  deriving Repr, DecidableEq, Inhabited

/-- A typed storage cell; its type never changes. -/
structure Cell where
  ty : Ty
  value : Value
  state : InitState
  deriving Repr, DecidableEq, Inhabited

/-- An array: its first limit bounds its own length, the others are for nested arrays. -/
structure ArrayData where
  element : Ty
  limits : Limits
  items : Array CellId
  deriving Repr, DecidableEq, Inhabited

/-- One field of an instance. -/
structure FieldSlot where
  name : String
  ty : Ty
  deriving Repr, DecidableEq, Inhabited

/-- The fields that one class of a chain adds. -/
structure LayoutLevel where
  className : String
  fields : List FieldSlot
  deriving Repr, DecidableEq, Inhabited

/-- The shape of the instances of a class: its own level first, then its ancestors'. -/
structure ClassLayout where
  id : ClassId
  levels : List LayoutLevel
  deriving Repr, DecidableEq, Inhabited

/-- The number under which an open file is registered. -/
abbrev FileHandle := Int64

/-- An instance with its cells, base class first, and the open file that closes with it. -/
structure Instance where
  layout : ClassLayout
  fields : Array CellId
  openFile : Option FileHandle
  deriving Repr, DecidableEq, Inhabited

/-- The storage of a running program. -/
structure Heap where
  cells : Array Cell := #[]
  arrays : Array ArrayData := #[]
  objects : Array Instance := #[]
  deriving Repr, DecidableEq, Inhabited

namespace Heap

/-- The cell at a position. -/
def cell (heap : Heap) (id : CellId) : Cell :=
  (heap.cells[id.index]?).getD default

/-- The array at a position. -/
def array (heap : Heap) (id : ArrayId) : ArrayData :=
  (heap.arrays[id.index]?).getD default

/-- The instance at a position. -/
def object (heap : Heap) (id : ObjectId) : Instance :=
  (heap.objects[id.index]?).getD default

/-- Place a new cell. -/
def addCell (heap : Heap) (cell : Cell) : CellId × Heap :=
  (⟨heap.cells.size⟩, { heap with cells := heap.cells.push cell })

/-- Place a new array. -/
def addArray (heap : Heap) (array : ArrayData) : ArrayId × Heap :=
  (⟨heap.arrays.size⟩, { heap with arrays := heap.arrays.push array })

/-- Place a new instance. -/
def addObject (heap : Heap) (object : Instance) : ObjectId × Heap :=
  (⟨heap.objects.size⟩, { heap with objects := heap.objects.push object })

/-- Replace the contents of a cell. -/
def setCell (heap : Heap) (id : CellId) (cell : Cell) : Heap :=
  { heap with cells := heap.cells.setIfInBounds id.index cell }

/-- Replace an array. -/
def setArray (heap : Heap) (id : ArrayId) (array : ArrayData) : Heap :=
  { heap with arrays := heap.arrays.setIfInBounds id.index array }

/-- Replace an instance. -/
def setObject (heap : Heap) (id : ObjectId) (object : Instance) : Heap :=
  { heap with objects := heap.objects.setIfInBounds id.index object }

/-- Place several new cells, in order. -/
def addCells (heap : Heap) : List Cell → Array CellId × Heap
  | [] => (#[], heap)
  | first :: rest =>
      let (id, heap) := heap.addCell first
      let (ids, heap) := heap.addCells rest
      (#[id] ++ ids, heap)

end Heap

end BotScript
