import BotScript.Proofs.NormalHeap
import BotScript.Proofs.SinglePrecision
import BotScript.Proofs.TextDepth

namespace BotScript

/-!
# Values of a type

What a value becomes in a conversion depends on its form and on the target: numbers are
wrapped, truncated or rounded, references are kept or lost, and everything has a text, unless
it contains itself.  The result is a value of the target type.  A store into a cell converts while
the cell is in use, so it also fails when the text of the value is made from that cell.
-/

/-- References are no numbers. -/
theorem Ty.isNumeric_of_isReference
    {ty : Ty}
    (isReference : ty.isReference = true) :
    ty.isNumeric = false := by
  cases ty <;> first | rfl | cases isReference

/-! ## Forms and types of values -/

namespace Heap

variable {heap : Heap}

/--
A value has the form of the values of a type.  Nothing is said of the size of its number or of
the class of its instance.
-/
inductive HasForm (heap : Heap) : Ty → Value → Prop where
  | nan {ty : Ty} : ty.isNumeric = true ∨ ty = .boolean → HasForm heap ty .nan
  | bool (content : Bool) : HasForm heap .boolean (.bool content)
  | int {ty : Ty} (content : Int64) : ty.isInteger = true → HasForm heap ty (.int content)
  | float {ty : Ty} (content : Double) : ty.isFloating = true → HasForm heap ty (.float content)
  | str (content : String) : HasForm heap .string (.str content)
  | null {ty : Ty} : ty.isReference = true → HasForm heap ty .null
  | array (id : ArrayId) : HasForm heap (.array (heap.array id).element) (.array id)
  | object (className : String) (id : ObjectId) : HasForm heap (.object className) (.object id)

/--
A value is one of a type: it has the form of its values, its number is one that the type has,
and its instance is one of the class or inherits from it.
-/
inductive Typed (heap : Heap) : Ty → Value → Prop where
  | nan {ty : Ty} : ty.isNumeric = true ∨ ty = .boolean → Typed heap ty .nan
  | bool (content : Bool) : Typed heap .boolean (.bool content)
  | int {ty : Ty} {content : Int64} :
      ty.isInteger = true → ty.wrap content = content → Typed heap ty (.int content)
  | single {content : Double} : content.toSingle = content → Typed heap .float (.float content)
  | double (content : Double) : Typed heap .double (.float content)
  | str (content : String) : Typed heap .string (.str content)
  | null {ty : Ty} : ty.isReference = true → Typed heap ty .null
  | array (id : ArrayId) : Typed heap (.array (heap.array id).element) (.array id)
  | object {className : String} {id : ObjectId} :
      (heap.object id).layout.isA className = true → Typed heap (.object className) (.object id)

/-- A value of a type has the form of its values. -/
theorem Typed.hasForm
    {ty : Ty}
    {value : Value}
    (typed : heap.Typed ty value) :
    heap.HasForm ty value := by
  cases typed with
  | nan isScalar => exact .nan isScalar
  | bool content => exact .bool content
  | int isInteger _ => exact .int _ isInteger
  | single _ => exact .float _ rfl
  | double content => exact .float content rfl
  | str content => exact .str content
  | null isReference => exact .null isReference
  | array id => exact .array id
  | object _ => exact .object _ _

/-! ## Conversions -/

/-- What a value of one type is as a value of another type. -/
inductive ConvertsTo (heap : Heap) : Value → Ty → Ty → Value → Prop where
  | nan {source target : Ty} :
      target.isNumeric = true ∨ target = .boolean → ConvertsTo heap .nan source target .nan
  | bool {source : Ty} (content : Bool) :
      ConvertsTo heap (.bool content) source .boolean (.bool content)
  | wrapped {source target : Ty} (content : Int64) :
      target.isInteger = true →
      ConvertsTo heap (.int content) source target (.int (target.wrap content))
  | truncated {source target : Ty} (content : Double) :
      target.isInteger = true →
      ConvertsTo heap (.float content) source target (.int (target.wrap content.toInt64))
  | singleOfInteger {source : Ty} (content : Int64) :
      ConvertsTo heap (.int content) source .float (.float (Double.ofInt64Single content))
  | rounded {source : Ty} (content : Double) :
      ConvertsTo heap (.float content) source .float (.float content.toSingle)
  | doubleOfInteger {source : Ty} (content : Int64) :
      ConvertsTo heap (.int content) source .double (.float (Double.ofInt64 content))
  | double {source : Ty} (content : Double) :
      ConvertsTo heap (.float content) source .double (.float content)
  | text {source : Ty} {value : Value} {content : String} :
      heap.valueText value source = .ok content →
      ConvertsTo heap value source .string (.str content)
  | null {source target : Ty} :
      target.isReference = true → ConvertsTo heap .null source target .null
  | array {source : Ty} (id : ArrayId) :
      ConvertsTo heap (.array id) source (.array (heap.array id).element) (.array id)
  | heir {source : Ty} {className : String} {id : ObjectId} :
      (heap.object id).layout.isA className = true →
      ConvertsTo heap (.object id) source (.object className) (.object id)
  | stranger {source : Ty} {className : String} {id : ObjectId} :
      (heap.object id).layout.isA className = false →
      ConvertsTo heap (.object id) source (.object className) .null

variable {source target : Ty} {value result : Value}

/-- What a value becomes is a value of the target type. -/
theorem ConvertsTo.typed
    (converts : heap.ConvertsTo value source target result) :
    heap.Typed target result := by
  cases converts with
  | nan isScalar => exact .nan isScalar
  | bool content => exact .bool content
  | wrapped content isInteger => exact .int isInteger (Ty.wrap_wrap _ _)
  | truncated content isInteger => exact .int isInteger (Ty.wrap_wrap _ _)
  | singleOfInteger content => exact .single (Double.toSingle_ofInt64Single content)
  | rounded content => exact .single content.toSingle_toSingle
  | doubleOfInteger content => exact .double _
  | double content => exact .double content
  | text _ => exact .str _
  | null isReference => exact .null isReference
  | array id => exact .array id
  | heir isHeir => exact .object isHeir
  | stranger _ => exact .null rfl

/-- A value is converted to another type. -/
def Converts (heap : Heap) (value : Value) (source target : Ty) : Prop :=
  ∃ result, heap.convert value source target = .ok result ∧
    heap.ConvertsTo value source target result

/-- A value that is to become a text contains itself. -/
def Endless (heap : Heap) (value : Value) (source target : Ty) : Prop :=
  target = .string ∧ heap.valueText value source = .error .endlessText ∧
    heap.convert value source target = .error .endlessText

/-- Every value of a type becomes a text, unless it contains itself. -/
theorem converts_text
    (form : heap.HasForm source value) :
    heap.Converts value source .string ∨ heap.Endless value source .string := by
  have same : heap.convert value source .string = (heap.valueText value source).map .str := by
    cases form <;> rfl
  by_cases itself : heap.ShowsItself value
  · have endless : heap.valueText value source = .error .endlessText :=
      (heap.text_ends_iff value source).2 itself _
    exact .inr ⟨rfl, endless, by rw [same, endless]; rfl⟩
  · obtain ⟨text, isText, -⟩ := (heap.text_ends_iff value source).1 itself
    exact .inl ⟨.str text, by rw [same, isText]; rfl, .text isText⟩

/-- A number, or the mark for no number, becomes a number of another type. -/
theorem converts_number
    (form : heap.HasForm source value)
    (fromNumber : source.isNumeric = true)
    (toNumber : target.isNumeric = true) :
    heap.Converts value source target := by
  cases form with
  | nan _ =>
      cases target <;> first | exact ⟨_, rfl, .nan (.inl toNumber)⟩ | cases toNumber
  | int content _ =>
      cases target with
      | byte | short | char | int | long => exact ⟨_, rfl, .wrapped content rfl⟩
      | float => exact ⟨_, rfl, .singleOfInteger content⟩
      | double => exact ⟨_, rfl, .doubleOfInteger content⟩
      | _ => cases toNumber
  | float content _ =>
      cases target with
      | byte | short | char | int | long => exact ⟨_, rfl, .truncated content rfl⟩
      | float => exact ⟨_, rfl, .rounded content⟩
      | double => exact ⟨_, rfl, .double content⟩
      | _ => cases toNumber
  | null isReference =>
      rw [Ty.isNumeric_of_isReference isReference] at fromNumber
      cases fromNumber
  | bool | str | array | object => cases fromNumber

/-- A reference to an instance becomes a reference to an instance of another class, or null. -/
theorem converts_object
    {first second : String}
    (form : heap.HasForm (.object first) value) :
    heap.Converts value (.object first) (.object second) := by
  cases form with
  | nan isScalar => simp [Ty.isNumeric, Ty.numericRank?] at isScalar
  | null _ => exact ⟨_, rfl, .null rfl⟩
  | object _ id =>
      cases inherits : (heap.object id).layout.isA second with
      | true =>
          refine ⟨.object id, congrArg Except.ok (if_pos inherits), .heir inherits⟩
      | false =>
          refine ⟨.null, congrArg Except.ok (if_neg (by simp [inherits])), .stranger inherits⟩
  | int _ isInteger => cases isInteger
  | float _ isFloating => cases isFloating

/-- Every value of a type stays one when it is converted to the same type. -/
theorem converts_same
    (form : heap.HasForm source value)
    (notText : source ≠ .string) :
    heap.Converts value source source := by
  by_cases isNumber : source.isNumeric = true
  · exact converts_number form isNumber isNumber
  · cases form with
    | nan isScalar =>
        obtain rfl := isScalar.resolve_left isNumber
        exact ⟨_, rfl, .nan (.inr rfl)⟩
    | bool content => exact ⟨_, rfl, .bool content⟩
    | null isReference =>
        cases source <;> first | exact ⟨_, rfl, .null rfl⟩ | cases isReference
    | array id => exact ⟨_, rfl, .array id⟩
    | object className id => exact converts_object (.object className id)
    | str content => exact absurd rfl notText
    | int _ isInteger => cases source <;> first | exact absurd rfl isNumber | cases isInteger
    | float _ isFloating => cases source <;> first | exact absurd rfl isNumber | cases isFloating

/-! ## Stores into cells that are in use -/

variable {inUse : Option CellId}

/-- What is made from no cells shows nothing. -/
theorem not_showsItself_of_scalar
    (scalar : value.refs = []) :
    ¬ heap.ShowsItself value ∧ ∀ cell, ¬ heap.ReadsCell value cell := by
  have none (cell : CellId) : cell ∉ heap.textCells value := by
    cases value <;> simp_all [Value.refs, textCells]
  refine ⟨?_, ?_⟩
  · rintro ⟨whole, reached, circle⟩
    obtain rfl | ⟨part, ⟨cell, isCell, -⟩, -⟩ := Relation.ReflTransGen.cases_head reached
    · obtain ⟨part, ⟨cell, isCell, -⟩, -⟩ := Relation.TransGen.head'_iff.mp circle
      exact none cell isCell
    · exact none cell isCell
  · rintro cell ⟨whole, reached, isCell⟩
    obtain rfl | ⟨part, ⟨other, isOther, -⟩, -⟩ := Relation.ReflTransGen.cases_head reached
    · exact none cell isCell
    · exact none other isOther

/-- Only a structure that becomes a text can meet a fault that scripts cannot catch. -/
theorem convertWhile_checked
    (plain : target ≠ .string ∨ value.refs = []) :
    (∃ result, heap.convertWhile inUse value source target = .ok result) ∨
      ∃ code, heap.convertWhile inUse value source target = .error (.error code) := by
  cases value <;> cases target <;>
    first
      | exact .inl ⟨_, rfl⟩
      | exact .inr ⟨_, rfl⟩
      | simp [Value.refs] at plain

/-- The text of a structure is its value as a text. -/
theorem convertWhile_string
    (structured : value.refs ≠ []) :
    heap.convertWhile inUse value source .string =
      (heap.textWithin inUse heap.textDepth value source).map .str := by
  cases value <;> first | rfl | exact absurd rfl structured

/--
A store meets a fault that scripts cannot catch exactly if it turns a structure into a text, and
the structure shows itself or its text is made from the cell that is written.
-/
theorem store_breaks_iff
    (heap : Heap)
    (id : CellId)
    (value : Value)
    (source : Ty) :
    (∃ fault, heap.store id value source = .error fault ∧ ∀ code, fault ≠ .error code) ↔
      (heap.cell id).ty = .string ∧ (heap.ShowsItself value ∨ heap.ReadsCell value id) := by
  have stored : heap.store id value source =
      (heap.convertWhile (some id) value source (heap.cell id).ty).map fun content =>
        heap.setCell id ⟨(heap.cell id).ty, content, .defined⟩ := by
    unfold store Cell.stored
    cases heap.convertWhile (some id) value source (heap.cell id).ty <;> rfl
  rw [stored]
  by_cases plain : (heap.cell id).ty ≠ .string ∨ value.refs = []
  · have checked : ¬ ∃ fault,
        (heap.convertWhile (some id) value source (heap.cell id).ty).map (fun content =>
          heap.setCell id ⟨(heap.cell id).ty, content, .defined⟩) = .error fault ∧
            ∀ code, fault ≠ .error code := by
      rintro ⟨fault, failed, other⟩
      obtain ⟨result, same⟩ | ⟨code, same⟩ :=
        @convertWhile_checked heap source _ value (some id) plain
      · rw [same] at failed
        cases failed
      · rw [same] at failed
        exact other code (Except.error.inj failed).symm
    refine iff_of_false checked ?_
    rintro ⟨isText, itself⟩
    have scalar := plain.resolve_left (not_not_intro isText)
    exact itself.elim (not_showsItself_of_scalar scalar).1 ((not_showsItself_of_scalar scalar).2 id)
  · obtain ⟨isText, structured⟩ := not_or.mp plain
    rw [ne_eq, not_not] at isText
    rw [isText, convertWhile_string structured]
    have ends := @textWithin_textDepth_ok_iff heap (some id) value source
    cases result : heap.textWithin (some id) heap.textDepth value source with
    | ok text =>
        obtain ⟨finite, unused⟩ := ends.mp ⟨text, result⟩
        refine iff_of_false ?_ fun ⟨_, itself⟩ => itself.elim finite (unused id rfl)
        rintro ⟨fault, failed, -⟩
        cases failed
    | error fault =>
        have broken : fault = .endlessText ∨ fault = .cellInUse :=
          (textWithin_error result).imp_right And.left
        refine iff_of_true ⟨fault, rfl, ?_⟩ ⟨rfl, ?_⟩
        · rintro code rfl
          obtain same | same := broken <;> cases same
        · by_contra neither
          obtain ⟨finite, unused⟩ := not_or.mp neither
          obtain ⟨text, ended⟩ := ends.mpr ⟨finite, fun _ isUse => Option.some.inj isUse ▸ unused⟩
          cases result.symm.trans ended

end Heap

end BotScript
