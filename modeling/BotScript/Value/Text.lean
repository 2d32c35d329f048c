import BotScript.Fault
import BotScript.Number.Decimal
import BotScript.Value.Layout

namespace BotScript

/-!
# Text forms of values

The text of an array or an instance is made of the texts of its cells.  A
structure that contains itself has no text, which the bound on the nesting
detects: no chain of different arrays and instances is longer than the heap.
-/

/-- The character with a code point, or the replacement character. -/
def characterOf (codePoint : Int) : Char :=
  if 0 ≤ codePoint && codePoint.toNat.isValidChar then Char.ofNat codePoint.toNat
  else Char.ofNat 0xFFFD

namespace Value

/-- The text of a value that refers to nothing, read as a type. -/
def scalarText (value : Value) (ty : Ty) : String :=
  match value with
  | .bool value => if value then "true" else "false"
  | .int value =>
      match ty with
      | .char => String.singleton (characterOf value.toInt)
      | .float | .double => (Double.ofInt64 value).text
      | _ => toString value.toInt
  | .float value => value.text
  | .str value => value
  | .nan => "nan"
  | .null => "null"
  | .void | .array _ | .object _ => ""

end Value

namespace Heap

/-- The text of a class level from the texts of its fields. -/
def levelText (level : LayoutLevel) (texts : List String) : String :=
  let fields := (level.fields.zip texts).map fun (field, text) => field.name ++ "=" ++ text
  level.className ++ "( " ++ ", ".intercalate fields ++ " )"

/-- The texts of levels, most derived first, from the texts of all fields, base class first. -/
def levelTexts : List LayoutLevel → List String → List String
  | [], _ => []
  | level :: ancestors, texts =>
      let offset := ClassLayout.countFields ancestors
      levelText level (texts.drop offset) :: levelTexts ancestors (texts.take offset)

/--
The text of a value read as a type, nested no deeper than a bound, where one
cell may be in use and must not be read.
-/
def textWithin
    (heap : Heap) (inUse : Option CellId) (depth : Nat) (value : Value) (ty : Ty) :
    Checked String :=
  match value, depth with
  | .array _, 0 | .object _, 0 => .error .endlessText
  | .array id, depth + 1 => do
      let texts ← (heap.array id).items.toList.mapM fun item => do
        if inUse == some item then throw .cellInUse
        let cell := heap.cell item
        if cell.state == .undefined then pure "undefined"
        else heap.textWithin inUse depth cell.value cell.ty
      pure ("\x7b " ++ ", ".intercalate texts ++ " \x7d")
  | .object id, depth + 1 => do
      let object := heap.object id
      let texts ← object.fields.toList.mapM fun item => do
        if inUse == some item then throw .cellInUse
        let cell := heap.cell item
        if cell.state == .undefined then pure "undefined"
        else heap.textWithin inUse depth cell.value cell.ty
      pure ("Pointer to " ++ " extends ".intercalate (levelTexts object.layout.levels texts))
  | value, _ => pure (value.scalarText ty)

/-- A nesting that no structure without cycles exceeds. -/
def textDepth (heap : Heap) : Nat :=
  heap.arrays.size + heap.objects.size + 1

/-- The text of a value read as a type. -/
def valueText (heap : Heap) (value : Value) (ty : Ty) : Checked String :=
  heap.textWithin none heap.textDepth value ty

/-- The text of a cell. -/
def cellText (heap : Heap) (cell : Cell) : Checked String :=
  if cell.state == .undefined then pure "undefined" else heap.valueText cell.value cell.ty

/-- The text of an array. -/
def arrayText (heap : Heap) (id : ArrayId) : Checked String :=
  heap.valueText (.array id) .null

/-- The text of an instance without the word that marks a reference. -/
def instanceText (heap : Heap) (id : ObjectId) : Checked String := do
  let object := heap.object id
  let texts ← object.fields.toList.mapM fun item => heap.cellText (heap.cell item)
  pure (" extends ".intercalate (levelTexts object.layout.levels texts))

end Heap

end BotScript
