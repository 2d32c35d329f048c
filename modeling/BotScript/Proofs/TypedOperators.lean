import BotScript.Proofs.TypedValues
import BotScript.Proofs.YieldedConstants

namespace BotScript

/-!
# Operators on values of their types

The compiler gives an operator the type to which its operands are converted and the type of
its result.  With these, no operator meets an operand that it does not know: it delivers a
value of the type of its result, or it fails because it divides by zero or because a number is
missing.
-/

/-! ## Operands -/

/-- The types of which an operator knows the values. -/
def BinaryOp.accepts (op : BinaryOp) : Ty → Bool
  | .byte | .short | .char | .int | .long => true
  | .float | .double => !op.isShift && !op.isBitwise
  | .boolean => op.isEquality || op.isBitwise
  | .string => op == .add || op.isComparison
  | .null | .array _ | .object _ => op.isEquality
  | .void => false

/-- Values of one type can be operands of another type. -/
def Ty.Serves (source operand : Ty) : Prop :=
  operand = .string ∨ source = .boolean ∧ operand = .boolean ∨
    source.isNumeric = true ∧ operand.isNumeric = true ∨
    source.isReference = true ∧ operand.isReference = true

/-- The types of the operands of numbers. -/
theorem Ty.arithmeticResult?_serves
    {left right operand : Ty}
    (fits : left.arithmeticResult? right = some operand) :
    left.Serves operand ∧ right.Serves operand := by
  have toNumber : operand.isNumeric = true := by
    obtain rfl | rfl | rfl | rfl := Ty.arithmeticResult?_computes fits <;> rfl
  unfold arithmeticResult? at fits
  split at fits
  · next leftRank rightRank isLeft isRight =>
    exact ⟨.inr (.inr (.inl ⟨by rw [isNumeric, isLeft]; rfl, toNumber⟩)),
      .inr (.inr (.inl ⟨by rw [isNumeric, isRight]; rfl, toNumber⟩))⟩
  · cases fits

/-- An operator on numbers, no shift and not bit by bit, knows all types of results of numbers. -/
theorem BinaryOp.accepts_of_arithmeticResult?
    {op : BinaryOp}
    {left right operand : Ty}
    (fits : left.arithmeticResult? right = some operand)
    (onNumbers : (!op.isShift && !op.isBitwise) = true) :
    op.accepts operand = true := by
  obtain rfl | rfl | rfl | rfl := Ty.arithmeticResult?_computes fits
  · rfl
  · rfl
  · exact onNumbers
  · exact onNumbers

/-- Integers are numbers. -/
theorem Ty.isNumeric_of_isInteger
    {ty : Ty}
    (isInteger : ty.isInteger = true) :
    ty.isNumeric = true := by
  cases ty <;> first | rfl | cases isInteger

/-- The types of two integers have an integer type as that of their result. -/
theorem Ty.isInteger_of_arithmeticResult?
    {left right operand : Ty}
    (isLeft : left.isInteger = true)
    (isRight : right.isInteger = true)
    (fits : left.arithmeticResult? right = some operand) :
    operand.isInteger = true := by
  cases left <;> cases right <;> first
    | (cases fits; rfl)
    | exact absurd isLeft Bool.false_ne_true
    | exact absurd isRight Bool.false_ne_true

/-- An operator knows all integers. -/
theorem BinaryOp.accepts_of_isInteger
    {op : BinaryOp}
    {operand : Ty}
    (isInteger : operand.isInteger = true) :
    op.accepts operand = true := by
  cases operand <;> first | rfl | cases isInteger

/-- Operands that are compared for equality serve in the type of the comparison. -/
theorem equalityOperand?_serves
    {op : BinaryOp}
    {left right operand : Ty}
    (equality : op.isEquality = true)
    (fits : equalityOperand? left right = some operand) :
    left.Serves operand ∧ right.Serves operand ∧ op.accepts operand = true := by
  have onNumbers : (!op.isShift && !op.isBitwise) = true := by
    cases op <;> first | rfl | cases equality
  have references {ty : Ty} (isReference : ty.isReference = true) : op.accepts ty = true := by
    cases ty <;> first | exact equality | cases isReference
  have both {first second : Ty} (isFirst : first.isReference = true)
      (isSecond : second.isReference = true) : first.Serves second :=
    .inr (.inr (.inr ⟨isFirst, isSecond⟩))
  unfold equalityOperand? at fits
  split at fits
  · next isResult =>
    cases fits
    obtain ⟨isLeft, isRight⟩ := Ty.arithmeticResult?_serves isResult
    exact ⟨isLeft, isRight, BinaryOp.accepts_of_arithmeticResult? isResult onNumbers⟩
  · split at fits
    · cases fits
      exact ⟨.inr (.inl ⟨rfl, rfl⟩), .inr (.inl ⟨rfl, rfl⟩), by simp [BinaryOp.accepts, equality]⟩
    · cases fits
      refine ⟨.inl rfl, .inl rfl, ?_⟩
      cases op <;> first | rfl | cases equality
    · split at fits
      · next isReference =>
        cases fits
        exact ⟨both rfl isReference, both isReference isReference, references isReference⟩
      · cases fits
    · split at fits
      · next isReference =>
        cases fits
        exact ⟨both isReference isReference, both rfl isReference, references isReference⟩
      · cases fits
    · cases fits
      exact ⟨both rfl rfl, both rfl rfl, references rfl⟩
    · cases fits
      exact ⟨both rfl rfl, both rfl rfl, references rfl⟩
    · cases fits

/-- The operands of a binary operator serve in its operand type, which the operator knows. -/
theorem binaryTypes?_serves
    {op : BinaryOp}
    {left right operand result : Ty}
    (fits : binaryTypes? op left right = some (operand, result)) :
    left.Serves operand ∧ right.Serves operand ∧ op.accepts operand = true := by
  have computed {other : Ty → Ty} (onNumbers : (!op.isShift && !op.isBitwise) = true)
      (fits : (left.arithmeticResult? right).map (fun ty => (ty, other ty)) =
        some (operand, result)) :
      left.Serves operand ∧ right.Serves operand ∧ op.accepts operand = true := by
    obtain ⟨ty, isResult, same⟩ := Option.map_eq_some_iff.mp fits
    cases same
    obtain ⟨isLeft, isRight⟩ := Ty.arithmeticResult?_serves isResult
    exact ⟨isLeft, isRight, BinaryOp.accepts_of_arithmeticResult? isResult onNumbers⟩
  unfold binaryTypes? at fits
  split at fits
  · cases fits
  · cases op <;> dsimp only at fits
    case add =>
      split at fits
      · cases fits
        exact ⟨.inl rfl, .inl rfl, rfl⟩
      · exact computed rfl fits
    case sub | mul | div | mod | pow => exact computed rfl fits
    case shl | shr | ushr =>
      split at fits
      · next integers =>
        obtain ⟨isLeft, isRight⟩ := Bool.and_eq_true_iff.mp integers
        obtain ⟨ty, isResult, same⟩ := Option.map_eq_some_iff.mp fits
        cases same
        have isInteger := Ty.isInteger_of_arithmeticResult? isLeft isLeft isResult
        refine ⟨(Ty.arithmeticResult?_serves isResult).1, .inr (.inr (.inl ⟨?_, ?_⟩)),
          BinaryOp.accepts_of_isInteger isInteger⟩
        · exact Ty.isNumeric_of_isInteger isRight
        · exact Ty.isNumeric_of_isInteger isInteger
      · cases fits
    case bitAnd | bitOr | bitXor =>
      split at fits
      · next booleans =>
        simp only [Bool.and_eq_true, decide_eq_true_eq] at booleans
        cases fits
        exact ⟨.inr (.inl ⟨booleans.1, rfl⟩), .inr (.inl ⟨booleans.2, rfl⟩), rfl⟩
      · split at fits
        · next integers =>
          obtain ⟨isLeft, isRight⟩ := Bool.and_eq_true_iff.mp integers
          obtain ⟨ty, isResult, same⟩ := Option.map_eq_some_iff.mp fits
          cases same
          have isInteger := Ty.isInteger_of_arithmeticResult? isLeft isRight isResult
          obtain ⟨servesLeft, servesRight⟩ := Ty.arithmeticResult?_serves isResult
          exact ⟨servesLeft, servesRight, BinaryOp.accepts_of_isInteger isInteger⟩
        · cases fits
    case eq | ne =>
      obtain ⟨ty, isOperand, same⟩ := Option.map_eq_some_iff.mp fits
      cases same
      exact equalityOperand?_serves rfl isOperand
    case lt | le | gt | ge =>
      split at fits
      · cases fits
        exact ⟨.inl rfl, .inl rfl, rfl⟩
      · exact computed rfl fits

/-! ## Operands at run time -/

namespace Heap

variable {heap : Heap} {ty source target : Ty} {value : Value}

/-- A value that is there and no reference is a plain value of its type. -/
theorem HasForm.isPlain
    (form : heap.HasForm ty value)
    (notReference : ty.isReference = false)
    (there : value ≠ .nan) :
    value.isPlain ty = true := by
  cases form with
  | nan _ => exact absurd rfl there
  | bool | str => rfl
  | int _ isInteger => exact isInteger
  | float _ isFloating => exact isFloating
  | null isReference => exact absurd isReference (Bool.eq_false_iff.mp notReference)
  | array | object => cases notReference

/-- A plain value that a type keeps is a value of the type. -/
theorem typed_of_keeps
    (keeps : ty.Keeps value)
    (plain : value.isPlain ty = true) :
    heap.Typed ty value := by
  cases keeps with
  | nan => cases plain
  | bool content => exact .bool content
  | char narrow _ => exact .int rfl narrow
  | int narrow => exact .int rfl narrow
  | long content => exact .int rfl rfl
  | float single => exact .single single
  | double content => exact .double content
  | other value isOther =>
      obtain ⟨notNumeric, notBoolean⟩ := isOther
      cases value with
      | bool content => exact absurd plain (Bool.eq_false_iff.mp notBoolean)
      | int content =>
          exact absurd (Ty.isNumeric_of_isInteger plain) (Bool.eq_false_iff.mp notNumeric)
      | float content =>
          cases ty <;> first
            | exact absurd plain Bool.false_ne_true
            | cases notNumeric
      | str content =>
          obtain rfl := beq_iff_eq.mp plain
          exact .str content
      | _ => cases plain

/-- What refers to nothing is stored as it is converted. -/
theorem convertWhile_scalar
    (scalar : value.refs = [])
    (inUse : Option CellId) :
    heap.convertWhile inUse value source target = heap.convert value source target := by
  have text := Heap.textWithin_scalar scalar heap
  unfold convert convertWhile
  cases value with
  | array | object => cases scalar
  | _ => cases target <;> simp only [text]

/-- A plain value of a type has the form of its values. -/
theorem hasForm_of_isPlain
    (plain : value.isPlain ty = true) :
    heap.HasForm ty value := by
  cases value with
  | bool content => exact beq_iff_eq.mp plain ▸ .bool content
  | int content => exact .int content plain
  | float content => exact .float content plain
  | str content => exact beq_iff_eq.mp plain ▸ .str content
  | _ => cases plain

/-- A plain value of one type becomes a value of the same type or of another numeric type. -/
theorem converts_plain
    (plain : value.isPlain source = true)
    (fits : source = target ∨ source.isNumeric = true ∧ target.isNumeric = true) :
    heap.Converts value source target := by
  have form : heap.HasForm source value := hasForm_of_isPlain plain
  obtain rfl | ⟨fromNumber, toNumber⟩ := fits
  · by_cases isText : source = .string
    · subst isText
      cases form with
      | str content => exact ⟨.str content, rfl, .text rfl⟩
      | nan | int | float | null => cases plain
    · exact converts_same form isText
  · exact converts_number form fromNumber toNumber

end Heap

/-- A value together with the static type of the expression that has delivered it. -/
structure Operand where
  value : Value
  ty : Ty

namespace Operand

variable {heap : Heap} {operand : Operand} {common : Ty}

/-- The value of an operand has the form of the values of its type. -/
def Fits (heap : Heap) (operand : Operand) : Prop :=
  heap.HasForm operand.ty operand.value

/-- An operand converted for a binary operator; references stay as they are. -/
def converted (heap : Heap) (operand : Operand) (common : Ty) : Checked Value :=
  if common.isReference then .ok operand.value
  else heap.convert operand.value operand.ty common

/-- An operand that is to become a text contains itself. -/
def Endless (heap : Heap) (operand : Operand) (common : Ty) : Prop :=
  common = .string ∧ heap.valueText operand.value operand.ty = .error .endlessText

/-- Operands that serve in a type are converted to it, unless their text never ends. -/
theorem converted_ok_or
    (fits : operand.Fits heap)
    (serves : operand.ty.Serves common) :
    (∃ value, operand.converted heap common = .ok value ∧
        (common.isReference = true ∨ heap.HasForm common value)) ∨
      operand.Endless heap common ∧ operand.converted heap common = .error .endlessText := by
  have asValue (notReference : common.isReference = false)
      (converts : heap.Converts operand.value operand.ty common) :
      ∃ value, operand.converted heap common = .ok value ∧
        (common.isReference = true ∨ heap.HasForm common value) := by
    obtain ⟨value, isConverted, becomes⟩ := converts
    refine ⟨value, ?_, .inr becomes.typed.hasForm⟩
    rw [converted, notReference]
    exact isConverted
  obtain rfl | ⟨isBoolean, rfl⟩ | ⟨fromNumber, toNumber⟩ | ⟨-, isReference⟩ := serves
  · obtain converts | ⟨-, endless, failed⟩ := Heap.converts_text fits
    · exact .inl (asValue rfl converts)
    · exact .inr ⟨⟨rfl, endless⟩, failed⟩
  · refine .inl (asValue rfl ?_)
    have converts := Heap.converts_same fits (by rw [isBoolean]; decide)
    rwa [isBoolean] at converts ⊢
  · refine .inl (asValue ?_ (Heap.converts_number fits fromNumber toNumber))
    cases common <;> first | rfl | cases toNumber
  · exact .inl ⟨operand.value, if_pos isReference, .inl isReference⟩

end Operand

/-! ## Binary operators -/

/-- Whether a value is a zero, by which nothing is divided. -/
def Value.isZero : Value → Bool
  | .int content => content == 0
  | .float content => content.isZero
  | _ => false

namespace BinaryOp

variable {op : BinaryOp} {heap : Heap} {ty common result : Ty} {left right : Operand}

/-- Whether an operator divides by its right operand. -/
def divides : BinaryOp → Bool
  | .div | .mod => true
  | _ => false

/-- An operator on integers has a result, unless it divides by zero. -/
theorem onIntegers_total
    (op : BinaryOp)
    (ty : Ty)
    (first second : Int64) :
    (∃ value, op.onIntegers ty first second = .ok value) ∨
      op.divides = true ∧ (Value.int second).isZero = true ∧
        op.onIntegers ty first second = .error .zeroDivision := by
  cases op
  case div | mod =>
      by_cases isZero : (second == 0) = true
      · exact .inr ⟨rfl, isZero, if_pos isZero⟩
      · exact .inl ⟨_, if_neg isZero⟩
  case pow =>
      unfold onIntegers
      dsimp only
      split <;> exact .inl ⟨_, rfl⟩
  all_goals exact .inl ⟨_, rfl⟩

/-- An operator on floating-point numbers has a result, unless it divides by zero. -/
theorem onFloats_total
    (onNumbers : (!op.isShift && !op.isBitwise) = true)
    (ty : Ty)
    (first second : Double) :
    (∃ value, op.onFloats ty first second = .ok value) ∨
      op.divides = true ∧ (Value.float second).isZero = true ∧
        op.onFloats ty first second = .error .zeroDivision := by
  cases op
  case div | mod =>
      by_cases isZero : second.isZero = true
      · exact .inr ⟨rfl, isZero, if_pos isZero⟩
      · exact .inl ⟨_, if_neg isZero⟩
  case shl | shr | ushr | bitAnd | bitOr | bitXor => cases onNumbers
  case eq | ne | lt | le | gt | ge =>
      unfold onFloats
      cases first.compare? second <;> exact .inl ⟨_, rfl⟩
  all_goals exact .inl ⟨_, rfl⟩

/--
An operator that knows a type has a result for values of the type, unless it divides by zero or
a number is missing.
-/
theorem apply_total
    {first second : Value}
    (accepts : op.accepts ty = true)
    (isFirst : ty.isReference = true ∨ heap.HasForm ty first)
    (isSecond : ty.isReference = true ∨ heap.HasForm ty second) :
    (∃ value, op.apply ty first second = .ok value) ∨
      (op.divides = true ∧ second.isZero = true ∧
        op.apply ty first second = .error .zeroDivision) ∨
      op.isEquality = false ∧ (first = .nan ∨ second = .nan) ∧
        op.apply ty first second = .error .nanOperand := by
  unfold apply
  by_cases missing : (first == .nan || second == .nan) = true
  · rw [if_pos missing]
    have isMissing : first = .nan ∨ second = .nan := by simpa using missing
    cases op <;> first
      | exact .inl ⟨_, rfl⟩
      | exact .inr (.inr ⟨rfl, isMissing, rfl⟩)
  · rw [if_neg missing]
    obtain ⟨firstThere, secondThere⟩ : first ≠ .nan ∧ second ≠ .nan := by simpa using missing
    have plain {value : Value} (isScalar : ty.isReference = false) (there : value ≠ .nan)
        (form : ty.isReference = true ∨ heap.HasForm ty value) : value.isPlain ty = true :=
      (form.resolve_left (Bool.eq_false_iff.mp isScalar)).isPlain isScalar there
    cases ty with
    | byte | short | char | int | long =>
        cases first <;> cases plain rfl firstThere isFirst
        cases second <;> cases plain rfl secondThere isSecond
        exact (onIntegers_total op _ _ _).imp_right .inl
    | float | double =>
        cases first <;> cases plain rfl firstThere isFirst
        cases second <;> cases plain rfl secondThere isSecond
        exact (onFloats_total accepts _ _ _).imp_right .inl
    | boolean =>
        cases first <;> cases plain rfl firstThere isFirst
        cases second <;> cases plain rfl secondThere isSecond
        cases op <;> first | exact .inl ⟨_, rfl⟩ | cases accepts
    | string =>
        cases first <;> cases plain rfl firstThere isFirst
        cases second <;> cases plain rfl secondThere isSecond
        cases op <;> first | exact .inl ⟨_, rfl⟩ | cases accepts
    | null | array | object =>
        cases op <;> first | exact .inl ⟨_, rfl⟩ | cases accepts
    | void => cases accepts

/-- The result of an operator on operands that are converted to the type of its operands. -/
def evaluate (op : BinaryOp) (heap : Heap) (common : Ty) (left right : Operand) :
    Checked Value := do
  let first ← left.converted heap common
  let second ← right.converted heap common
  .ofExcept (op.apply common first second)

/-- What an operator delivers is no reference and no missing number. -/
theorem evaluate_plain
    {value : Value}
    (evaluated : op.evaluate heap common left right = .ok value) :
    value.isPlain (op.resultType common) = true := by
  obtain ⟨first, -, evaluated⟩ := bind_ok evaluated
  obtain ⟨second, -, evaluated⟩ := bind_ok evaluated
  cases applied : op.apply common first second with
  | error code =>
      rw [applied] at evaluated
      cases evaluated
  | ok delivered =>
      rw [applied] at evaluated
      cases evaluated
      exact apply_ok applied

/--
What can come of an operator: a value of the type of its results, or a failure because it
divides by zero, because a number is missing, or because the text of an operand never ends.
-/
inductive Ends
    (op : BinaryOp) (heap : Heap) (common result : Ty) (left right : Operand) :
    Checked Value → Prop where
  | value {value : Value} :
      heap.Typed result value → Ends op heap common result left right (.ok value)
  | zeroDivision {divisor : Value} :
      op.divides = true → right.converted heap common = .ok divisor → divisor.isZero = true →
      Ends op heap common result left right (.error (.error .zeroDivision))
  | nanOperand :
      op.isEquality = false →
      left.converted heap common = .ok .nan ∨ right.converted heap common = .ok .nan →
      Ends op heap common result left right (.error (.error .nanOperand))
  | endless :
      left.Endless heap common ∨ right.Endless heap common →
      Ends op heap common result left right (.error .endlessText)

/-- Operators whose types fit end well, or because of the operands that they are given. -/
theorem evaluate_ends
    (fits : binaryTypes? op left.ty right.ty = some (common, result))
    (isLeft : left.Fits heap)
    (isRight : right.Fits heap) :
    op.Ends heap common result left right (op.evaluate heap common left right) := by
  obtain ⟨servesLeft, servesRight, accepts⟩ := binaryTypes?_serves fits
  obtain ⟨computes, rfl⟩ := binaryTypes?_types fits
  unfold evaluate
  obtain ⟨first, isFirst, firstForm⟩ | ⟨endless, failed⟩ :=
    Operand.converted_ok_or isLeft servesLeft
  · obtain ⟨second, isSecond, secondForm⟩ | ⟨endless, failed⟩ :=
      Operand.converted_ok_or isRight servesRight
    · rw [isFirst, isSecond]
      simp only [bind, Except.bind]
      obtain ⟨value, applied⟩ | ⟨divides, isZero, applied⟩ | ⟨notEquality, missing, applied⟩ :=
        apply_total accepts firstForm secondForm
      · rw [applied]
        exact .value (Heap.typed_of_keeps (apply_keeps computes applied) (apply_ok applied))
      · rw [applied]
        exact .zeroDivision divides isSecond isZero
      · rw [applied]
        refine .nanOperand notEquality ?_
        obtain rfl | rfl := missing
        · exact .inl isFirst
        · exact .inr isSecond
    · rw [isFirst, failed]
      exact .endless (.inr endless)
  · rw [failed]
    exact .endless (.inl endless)

/-- Operators that take the right operand first come to the same. -/
theorem evaluate_swap
    (isLeft : left.Fits heap)
    (isRight : right.Fits heap)
    (servesLeft : left.ty.Serves common)
    (servesRight : right.ty.Serves common) :
    op.evaluate heap common left right =
      (do
        let second ← right.converted heap common
        let first ← left.converted heap common
        .ofExcept (op.apply common first second)) := by
  unfold evaluate
  obtain ⟨first, isFirst, -⟩ | ⟨-, failed⟩ := Operand.converted_ok_or isLeft servesLeft
  · rw [isFirst]
    rfl
  · obtain ⟨second, isSecond, -⟩ | ⟨-, alsoFailed⟩ :=
      Operand.converted_ok_or isRight servesRight
    · rw [failed, isSecond]
      rfl
    · rw [failed, alsoFailed]
      rfl

end BinaryOp

/-! ## Compound assignments -/

/--
A compound assignment is computed as a binary operator that is no comparison, and its result
has the type of the target, or both are numeric.
-/
theorem compoundOperand?_types
    {op : BinaryOp}
    {target source common : Ty}
    (fits : compoundOperand? op target source = some common) :
    binaryTypes? op target source = some (common, common) ∧
      (common = target ∨ common.isNumeric = true ∧ target.isNumeric = true) := by
  unfold compoundOperand? at fits
  split at fits
  · next texts =>
    cases fits
    simp only [Bool.and_eq_true, decide_eq_true_eq, Bool.not_eq_true'] at texts
    obtain ⟨⟨rfl, rfl⟩, notVoid⟩ := texts
    have isText : Ty.string.isVoid = false := rfl
    exact ⟨by simp [binaryTypes?, isText, notVoid], .inl rfl⟩
  · split at fits
    · cases fits
    · next computes =>
      have notComparison : op.isComparison = false := by
        simp only [Bool.or_eq_true, not_or, Bool.not_eq_true] at computes
        exact computes.1
      split at fits
      · next operand result isResult =>
        obtain ⟨stays, same⟩ := Option.ite_none_right_eq_some.mp fits
        cases same
        obtain rfl : result = common := by
          rw [(binaryTypes?_types isResult).2, BinaryOp.resultType, notComparison]
          rfl
        simp only [Bool.or_eq_true, Bool.and_eq_true, decide_eq_true_eq] at stays
        exact ⟨isResult, stays⟩
      · cases fits

/-! ## Prefix operators -/

namespace Ty

variable {source target : Ty} {content : Int64}

/-- The types of prefix operators on integers. -/
theorem unary_integer
    (isInteger : source.isInteger = true)
    (fits : source.arithmeticResult? source = some target) :
    target = .int ∨ target = .long := by
  cases source <;> cases fits <;> first
    | exact absurd isInteger Bool.false_ne_true
    | exact .inl rfl
    | exact .inr rfl

/-- The opposite of an integer does not depend on whether the integer is wrapped first. -/
theorem wrap_neg_wrap
    (isTarget : target = .int ∨ target = .long) :
    target.wrap (-target.wrap content) = target.wrap (-content) := by
  obtain rfl | rfl := isTarget
  · simp [wrap]
  · rfl

/-- The complement of an integer does not depend on whether the integer is wrapped first. -/
theorem wrap_not_wrap
    (isTarget : target = .int ∨ target = .long) :
    target.wrap (~~~target.wrap content) = target.wrap (~~~content) := by
  obtain rfl | rfl := isTarget
  · simp [wrap]
  · rfl

/-- An integer that is kept by a wrap to the type of integers of 32 bits is one of them. -/
theorem lt_of_wrap_int
    (wraps : Ty.int.wrap content = content) :
    content.toInt < 2147483648 := by
  rw [← wraps]
  have bound := content.toInt32.toInt_lt
  rwa [wrap, Int32.toInt_toInt64]

/-- An operand of a prefix operator is one that the type of the operator has, unless it is a
code point from 2147483648 up. -/
theorem wrap_operand
    (isInteger : source.isInteger = true)
    (fits : source.arithmeticResult? source = some target)
    (wraps : source.wrap content = content)
    (narrow : source = .char → content.toInt < 2147483648) :
    target.wrap content = content := by
  cases source <;> cases fits
  case byte | short =>
    rw [← wraps]
    simp [wrap]
  case char =>
    have small := narrow rfl
    have positive : 0 ≤ content.toInt := by
      rw [← wraps, wrap, Int64.toInt_ofNat_of_lt]
      · exact Int.natCast_nonneg _
      · exact Nat.lt_trans (UInt32.toNat_lt _) (by decide)
    refine Int64.toInt_inj.mp ?_
    rw [wrap, Int32.toInt_toInt64, Int64.toInt_toInt32]
    exact Int.bmod_eq_of_le (by omega) (by omega)
  case int => exact wraps
  case long => rfl
  case float | double => cases isInteger

end Ty

namespace UnaryOp

variable {op : UnaryOp} {heap : Heap} {source target : Ty} {value : Value}

/-- The sign of a code point that is no integer of 32 bits. -/
def IsWide (op : UnaryOp) (source : Ty) (value : Value) : Prop :=
  op = .plus ∧ source = .char ∧ ∃ content, value = .int content ∧ 2147483648 ≤ content.toInt

/-- An integer is converted for a prefix operator, and the operator has a result of its type. -/
theorem apply_int
    {content : Int64}
    (fits : Compile.unaryType? op source = some target)
    (isInteger : source.isInteger = true)
    (wraps : source.wrap content = content) :
    ∃ operand result, Tree.convertConstant (.int content) source target = .ok operand ∧
      op.apply target operand = .ok result ∧ heap.Typed target result ∧
        (¬ op.IsWide source (.int content) → op.apply target (.int content) = .ok result) := by
  obtain ⟨rfl, -⟩ | isResult := Compile.unaryType?_type fits
  · cases isInteger
  have isTarget := Ty.unary_integer isInteger isResult
  have ofInteger : target.isInteger = true := by obtain rfl | rfl := isTarget <;> rfl
  have converts : Tree.convertConstant (.int content) source target =
      .ok (.int (target.wrap content)) := by
    obtain rfl | rfl := isTarget <;> rfl
  cases op with
  | neg =>
      refine ⟨_, _, converts, rfl, .int ofInteger (Ty.wrap_wrap _ _), fun _ => ?_⟩
      rw [Ty.wrap_neg_wrap isTarget]
      rfl
  | bitNot =>
      refine ⟨_, _, converts, rfl, .int ofInteger (Ty.wrap_wrap _ _), fun _ => ?_⟩
      rw [Ty.wrap_not_wrap isTarget]
      rfl
  | plus =>
      refine ⟨_, _, converts, rfl, .int ofInteger (Ty.wrap_wrap _ _), fun narrow => ?_⟩
      rw [Ty.wrap_operand isInteger isResult wraps]
      · rfl
      · exact fun isChar => Int.not_le.mp fun wide => narrow ⟨rfl, isChar, content, rfl, wide⟩
  | not =>
      obtain ⟨rfl, -⟩ := Option.ite_none_right_eq_some.mp fits
      cases isInteger

/--
A prefix operator delivers a value of its type, which is the one for the operand converted to
that type.  The only exception is the sign of a code point that is no integer of 32 bits.
-/
theorem apply_converted
    (fits : Compile.unaryType? op source = some target)
    (typed : heap.Typed source value)
    (there : value ≠ .nan) :
    ∃ operand result, Tree.convertConstant value source target = .ok operand ∧
      op.apply target operand = .ok result ∧ heap.Typed target result ∧
        (¬ op.IsWide source value → op.apply target value = .ok result) := by
  cases typed with
  | nan => exact absurd rfl there
  | bool content =>
      cases op <;> cases fits
      exact ⟨_, _, rfl, rfl, .bool _, fun _ => rfl⟩
  | int isInteger wraps => exact apply_int fits isInteger wraps
  | @single content rounds =>
      have converts : Tree.convertConstant (.float content) .float .float = .ok (.float content) :=
        congrArg (Except.ok ∘ Value.float) rounds
      cases op <;> cases fits
      · exact ⟨_, _, converts, rfl, .single (by rw [Double.toSingle_neg, rounds]), fun _ => rfl⟩
      · exact ⟨_, _, converts, rfl, .single rounds, fun _ => rfl⟩
  | double content =>
      cases op <;> cases fits
      · exact ⟨_, _, rfl, rfl, .double _, fun _ => rfl⟩
      · exact ⟨_, _, rfl, rfl, .double _, fun _ => rfl⟩
  | null isReference =>
      obtain ⟨rfl, -⟩ | isResult := Compile.unaryType?_type fits
      · cases isReference
      · cases source <;> first | exact absurd isReference Bool.false_ne_true | cases isResult
  | str | array | object => cases op <;> cases fits

/-- The sign of a code point that is no integer of 32 bits is delivered as it is. -/
theorem apply_wide
    (wide : op.IsWide source value) :
    op.apply .int value = .ok value ∧ ¬ heap.Typed .int value := by
  obtain ⟨rfl, -, content, rfl, wide⟩ := wide
  refine ⟨rfl, fun typed => ?_⟩
  cases typed with
  | int _ wraps => exact absurd (Ty.lt_of_wrap_int wraps) (Int.not_lt.mpr wide)

example : UnaryOp.plus.apply .int (.int 4294967295) = .ok (.int 4294967295) := rfl

end UnaryOp

end BotScript
