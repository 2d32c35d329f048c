import BotScript.Machine.Release
import BotScript.Value.Operator

namespace BotScript

/-!
# What operators deliver

Comparisons deliver truth values, and all other operators deliver a value of
the form of their operand type.  No operator delivers a reference.
-/

/-- What succeeds in two parts succeeds in each of them. -/
theorem bind_ok
    {ε α β : Type}
    {first : Except ε α}
    {next : α → Except ε β}
    {result : β}
    (succeeds : first >>= next = .ok result) :
    ∃ value, first = .ok value ∧ next value = .ok result := by
  cases first with
  | error fault => simp [Bind.bind, Except.bind] at succeeds
  | ok value => exact ⟨value, rfl, succeeds⟩

/-- Whether a value is a plain value of a type, not a reference or a missing number. -/
def Value.isPlain (ty : Ty) : Value → Bool
  | .bool _ => ty == .boolean
  | .int _ => ty.isInteger
  | .float _ => ty.isFloating
  | .str _ => ty == .string
  | _ => false

/-- A plain value refers to no part of the heap. -/
theorem Value.refs_of_isPlain
    {ty : Ty}
    {value : Value}
    (plain : value.isPlain ty = true) :
    value.refs = [] := by
  cases value <;> first | rfl | simp [isPlain] at plain

namespace BinaryOp

variable {op : BinaryOp} {ty : Ty} {result : Value}

/-- The type of the results of an operator on operands of a type. -/
def resultType (op : BinaryOp) (ty : Ty) : Ty :=
  if op.isComparison then .boolean else ty

/-- An ordering decides comparisons only. -/
theorem decide_ok
    {ordering : Ordering}
    (decided : (op.decide ordering).map Value.bool = .ok result) :
    result.isPlain (op.resultType ty) = true := by
  cases op <;> simp only [BinaryOp.decide, Except.map, Except.ok.injEq, reduceCtorEq] at decided <;>
    subst decided <;> rfl

/-- Comparisons of integers deliver truth values, other operators integers. -/
theorem onIntegers_ok
    {left right : Int64}
    (integer : ty.isInteger = true)
    (applied : op.onIntegers ty left right = .ok result) :
    result.isPlain (op.resultType ty) = true := by
  unfold onIntegers at applied
  cases op
  case eq | ne | lt | le | gt | ge => exact decide_ok applied
  case div | mod =>
      dsimp only at applied
      split at applied
      · simp at applied
      · cases applied
        exact integer
  case pow =>
      dsimp only at applied
      split at applied <;> cases applied <;> exact integer
  all_goals
    cases applied
    exact integer

/-- Comparisons of floating-point numbers deliver truth values, other operators numbers. -/
theorem onFloats_ok
    {left right : Double}
    (floating : ty.isFloating = true)
    (applied : op.onFloats ty left right = .ok result) :
    result.isPlain (op.resultType ty) = true := by
  unfold onFloats at applied
  cases op
  case eq | ne | lt | le | gt | ge =>
      dsimp only at applied
      split at applied
      · exact decide_ok applied
      · cases applied
        rfl
  case div | mod =>
      dsimp only at applied
      split at applied
      · simp at applied
      · cases applied
        exact floating
  all_goals
    cases applied <;> exact floating

/-- Operators on truth values deliver truth values. -/
theorem onBooleans_ok
    {left right : Bool}
    (applied : op.onBooleans left right = .ok result) :
    result.isPlain (op.resultType .boolean) = true := by
  cases op <;> cases applied <;> rfl

/-- Comparisons of texts deliver truth values, and their sum is a text. -/
theorem onStrings_ok
    {left right : String}
    (applied : op.onStrings left right = .ok result) :
    result.isPlain (op.resultType .string) = true := by
  cases op
  case add =>
      cases applied
      rfl
  all_goals exact @decide_ok _ _ _ (compare left right) applied

/-- References are only compared. -/
theorem onReferences_ok
    {left right : Value}
    (applied : op.onReferences left right = .ok result) :
    result.isPlain (op.resultType ty) = true := by
  cases op <;> cases applied <;> rfl

/-- The mark for no number is only compared. -/
theorem onNan_ok
    {left right : Value}
    (applied : op.onNan left right = .ok result) :
    result.isPlain (op.resultType ty) = true := by
  cases op <;> cases applied <;> rfl

/-- The result of an operator is a plain value of the type that the operator announces. -/
theorem apply_ok
    {left right : Value}
    (applied : op.apply ty left right = .ok result) :
    result.isPlain (op.resultType ty) = true := by
  unfold apply at applied
  split at applied
  · exact onNan_ok applied
  · split at applied
    case h_1 | h_2 | h_3 | h_4 | h_5 =>
        split at applied
        · exact onIntegers_ok rfl applied
        · simp at applied
    case h_6 | h_7 =>
        split at applied
        · exact onFloats_ok rfl applied
        · simp at applied
    case h_8 =>
        split at applied
        · exact onBooleans_ok applied
        · simp at applied
    case h_9 =>
        split at applied
        · exact onStrings_ok applied
        · simp at applied
    case h_10 | h_11 | h_12 => exact onReferences_ok applied
    case h_13 => simp at applied

/-- No binary operator delivers a reference. -/
theorem apply_refs
    {left right : Value}
    (applied : op.apply ty left right = .ok result) :
    result.refs = [] :=
  Value.refs_of_isPlain (apply_ok applied)

end BinaryOp

/-- No prefix operator delivers a reference. -/
theorem UnaryOp.apply_refs
    {op : UnaryOp}
    {ty : Ty}
    {value result : Value}
    (applied : op.apply ty value = .ok result) :
    result.refs = [] := by
  unfold UnaryOp.apply at applied
  split at applied <;> cases applied <;> rfl

/-- The value after a step is no reference. -/
theorem StepOp.apply_refs
    {op : StepOp}
    {ty : Ty}
    {value result : Value}
    (applied : op.apply ty value = .ok result) :
    result.refs = [] := by
  unfold StepOp.apply at applied
  split at applied <;> cases applied <;> rfl

end BotScript
