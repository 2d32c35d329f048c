import BotScript.Value.Basic

namespace BotScript

/-!
# Class layouts
-/

namespace ClassLayout

/-- The name of the class itself. -/
def name (layout : ClassLayout) : String :=
  match layout.levels with
  | level :: _ => level.className
  | [] => ""

/-- Whether the class has a name or inherits from the class with that name. -/
def isA (layout : ClassLayout) (className : String) : Bool :=
  layout.levels.any fun level => level.className == className

/-- The number of fields of a list of levels. -/
def countFields (levels : List LayoutLevel) : Nat :=
  levels.foldr (fun level count => level.fields.length + count) 0

/-- The number of fields of an instance. -/
def fieldCount (layout : ClassLayout) : Nat :=
  countFields layout.levels

/-- All fields of an instance, base class first. -/
def allFields (layout : ClassLayout) : List FieldSlot :=
  layout.levels.reverse.flatMap (·.fields)

/-- The index of a field among the given levels, of which the first is searched first. -/
def fieldIndexIn? (fieldName : String) : List LayoutLevel → Option Nat
  | [] => none
  | level :: ancestors =>
      match level.fields.findIdx? fun field => field.name == fieldName with
      | some position => some (countFields ancestors + position)
      | none => fieldIndexIn? fieldName ancestors

/-- The index of a field inside an instance, the most derived class searched first. -/
def fieldIndex? (layout : ClassLayout) (fieldName : String) : Option Nat :=
  fieldIndexIn? fieldName layout.levels

end ClassLayout

/-- The cell of a named field. -/
def Instance.fieldNamed? (object : Instance) (fieldName : String) : Option CellId :=
  (object.layout.fieldIndex? fieldName).bind fun index => object.fields[index]?

/-- A freshly declared cell: a null reference, or a scalar without a value. -/
def Cell.declared (ty : Ty) : Cell :=
  if ty.isReference then ⟨ty, .null, .defaulted⟩ else ⟨ty, .void, .undefined⟩

/-- Place a new instance whose fields are freshly declared. -/
def Heap.newInstance (heap : Heap) (layout : ClassLayout) : ObjectId × Heap :=
  let (fields, heap) := heap.addCells (layout.allFields.map fun field => Cell.declared field.ty)
  heap.addObject ⟨layout, fields, none⟩

end BotScript
