import BotScript.Operator
import BotScript.Value.Convert

namespace BotScript

/-!
# Operators on values

Operands arrive converted to the operand type of the node.  Integer results
wrap at the width of that type.
-/

/-- Whether an ordering satisfies a comparison; other operators do not compare. -/
def BinaryOp.decide (op : BinaryOp) (ordering : Ordering) : Except ErrorCode Bool :=
  match op with
  | .eq => .ok (ordering == .eq)
  | .ne => .ok (ordering != .eq)
  | .lt => .ok (ordering == .lt)
  | .le => .ok (ordering != .gt)
  | .gt => .ok (ordering == .gt)
  | .ge => .ok (ordering != .lt)
  | _ => .error .badType2

/-- The power of a 64-bit integer, modulo its width. -/
def integerPower (base : Int64) (exponent : Nat) : Int64 :=
  if exponent = 0 then 1
  else
    let half := integerPower (base * base) (exponent / 2)
    if exponent % 2 = 0 then half else base * half
termination_by exponent

namespace BinaryOp

/-- A binary operator on integers of a type. -/
def onIntegers (op : BinaryOp) (ty : Ty) (left right : Int64) : Except ErrorCode Value :=
  let bits := (ty.integerBits?).getD 64
  let wrapped (value : Int64) : Except ErrorCode Value := .ok (.int (ty.wrap value))
  -- Shift counts are taken modulo the width of the operands.
  let count := Int64.ofNat (right.toUInt64.toNat % bits)
  match op with
  | .add => wrapped (left + right)
  | .sub => wrapped (left - right)
  | .mul => wrapped (left * right)
  | .div => if right == 0 then .error .zeroDivision else wrapped (left / right)
  | .mod => if right == 0 then .error .zeroDivision else wrapped (left % right)
  | .pow =>
      if 0 ≤ right && right.toInt < UInt32.size then
        wrapped (integerPower left right.toInt.toNat)
      else wrapped ((Double.ofInt64 left).pow (Double.ofInt64 right)).toInt64
  | .shl => wrapped (left <<< count)
  | .shr => wrapped (left >>> count)
  | .ushr =>
      let pattern := if bits = 64 then left.toUInt64 else left.toUInt64.toUInt32.toUInt64
      wrapped (pattern >>> count.toUInt64).toInt64
  | .bitAnd => wrapped (left &&& right)
  | .bitOr => wrapped (left ||| right)
  | .bitXor => wrapped (left ^^^ right)
  | .eq | .ne | .lt | .le | .gt | .ge =>
      (op.decide (compare left.toInt right.toInt)).map .bool

/-- A binary operator on floating-point numbers of a type. -/
def onFloats (op : BinaryOp) (ty : Ty) (left right : Double) : Except ErrorCode Value :=
  let rounded (value : Double) : Except ErrorCode Value :=
    .ok (.float (if ty == .float then value.toSingle else value))
  match op with
  | .add => rounded (left.add right)
  | .sub => rounded (left.sub right)
  | .mul => rounded (left.mul right)
  | .div => if right.isZero then .error .zeroDivision else rounded (left.div right)
  | .mod => if right.isZero then .error .zeroDivision else rounded (left.rem right)
  | .pow => rounded (left.pow right)
  | .eq | .ne | .lt | .le | .gt | .ge =>
      match left.compare? right with
      | some ordering => (op.decide ordering).map .bool
      | none => .ok (.bool (op == .ne))
  | .shl | .shr | .ushr | .bitAnd | .bitOr | .bitXor => .error .badType2

/-- A binary operator on truth values. -/
def onBooleans (op : BinaryOp) (left right : Bool) : Except ErrorCode Value :=
  match op with
  | .eq => .ok (.bool (left == right))
  | .ne => .ok (.bool (left != right))
  | .bitAnd => .ok (.bool (left && right))
  | .bitOr => .ok (.bool (left || right))
  | .bitXor => .ok (.bool (left != right))
  | _ => .error .badType2

/-- A binary operator on texts. -/
def onStrings (op : BinaryOp) (left right : String) : Except ErrorCode Value :=
  match op with
  | .add => .ok (.str (left ++ right))
  | _ => (op.decide (compare left right)).map .bool

/-- A binary operator on references. -/
def onReferences (op : BinaryOp) (left right : Value) : Except ErrorCode Value :=
  match op with
  | .eq => .ok (.bool (left.equals right))
  | .ne => .ok (.bool (!left.equals right))
  | _ => .error .badType2

/-- A binary operator when one operand is the mark for "no number". -/
def onNan (op : BinaryOp) (left right : Value) : Except ErrorCode Value :=
  match op with
  | .eq => .ok (.bool ((left == .nan) == (right == .nan)))
  | .ne => .ok (.bool ((left == .nan) != (right == .nan)))
  | _ => .error .nanOperand

/-- The result of a binary operator on operands of a type. -/
def apply (op : BinaryOp) (ty : Ty) (left right : Value) : Except ErrorCode Value :=
  if left == .nan || right == .nan then op.onNan left right
  else
    match ty with
    | .byte | .short | .char | .int | .long =>
        match left.int?, right.int? with
        | some left, some right => op.onIntegers ty left right
        | _, _ => .error .badType2
    | .float | .double =>
        match left.float?, right.float? with
        | some left, some right => op.onFloats ty left right
        | _, _ => .error .badType2
    | .boolean =>
        match left.bool?, right.bool? with
        | some left, some right => op.onBooleans left right
        | _, _ => .error .badType2
    | .string =>
        match left.str?, right.str? with
        | some left, some right => op.onStrings left right
        | _, _ => .error .badType2
    | .null | .array _ | .object _ => op.onReferences left right
    | .void => .error .badType2

end BinaryOp

/-- The result of a prefix operator on an operand of a type. -/
def UnaryOp.apply (op : UnaryOp) (ty : Ty) (value : Value) : Except ErrorCode Value :=
  match op, value with
  | _, .nan => .error .nanOperand
  | .plus, .int value => .ok (.int value)
  | .plus, .float value => .ok (.float value)
  | .neg, .int value => .ok (.int (ty.wrap (-value)))
  | .neg, .float value => .ok (.float value.neg)
  | .not, .bool value => .ok (.bool (!value))
  | .bitNot, .int value => .ok (.int (ty.wrap (~~~value)))
  | .bitNot, .bool value => .ok (.bool (!value))
  | _, _ => .error .badType1

/-- The value of a variable of a type after a step. -/
def StepOp.apply (op : StepOp) (ty : Ty) (value : Value) : Except ErrorCode Value :=
  match value with
  | .nan => .error .nanOperand
  | .int value => .ok (.int (ty.wrap (value + op.delta)))
  | .float value =>
      let next := value.add (Double.ofInt64 op.delta)
      .ok (.float (if ty == .float then next.toSingle else next))
  | _ => .error .badType1

/-- The truth value of a condition. -/
def Value.truth (value : Value) : Except ErrorCode Bool :=
  match value with
  | .bool value => .ok value
  | .nan => .error .nanOperand
  | _ => .error .notBoolean

end BotScript
