import BotScript.Tree.Item

namespace BotScript

/-!
# Which types fit together

Every implicit conversion has a cost, by which overloads are compared; a
conversion without a cost is not allowed.  Equal types cost nothing, null and
wider numbers cost one, each step up a class chain costs one, narrower numbers
cost two, steps down a class chain cost two and one more for each, and texts cost three.
-/

namespace Tree

/-- The cost of using an instance of one class where another is expected. -/
def classCost? (tree : Tree) (source target : String) : Option Nat :=
  match tree.classNamed? source, tree.classNamed? target with
  | some source, some target =>
      match tree.inheritanceDistance? source target with
      | some levels => some levels
      | none => (tree.inheritanceDistance? target source).map (2 + ·)
  | _, _ => none

/-- The cost of converting a value of one type for a place of another type. -/
def conversionCost? (tree : Tree) (source target : Ty) : Option Nat :=
  if source = target then if source.isVoid then none else some 0
  else
    match source, target with
    | .void, _ | _, .void => none
    | _, .string => some 3
    | .null, .object _ | .null, .array _ => some 1
    | .object source, .object target => tree.classCost? source target
    | source, target =>
        match source.numericRank?, target.numericRank? with
        | some sourceRank, some targetRank => some (if sourceRank ≤ targetRank then 1 else 2)
        | _, _ => none

/-- Whether a value of one type may be stored in a place of another type. -/
def isAssignable (tree : Tree) (source target : Ty) : Bool :=
  (tree.conversionCost? source target).isSome

/-- The type of a conditional expression from the types of its branches. -/
def commonType? (tree : Tree) (left right : Ty) : Option Ty :=
  if left = right then if left.isVoid then none else some left
  else
    match left.numericRank?, right.numericRank? with
    | some leftRank, some rightRank => some (if rightRank ≤ leftRank then left else right)
    | _, _ =>
        match left, right with
        | .null, .array _ | .null, .object _ => some right
        | .array _, .null | .object _, .null => some left
        | .object leftName, .object rightName =>
            match tree.classNamed? leftName, tree.classNamed? rightName with
            | some leftId, some rightId =>
                if tree.isSubclassOf leftId rightId then some right
                else if tree.isSubclassOf rightId leftId then some left
                else none
            | _, _ => none
        | .string, other | other, .string => if other.isVoid then none else some .string
        | _, _ => none

end Tree

/-- The type in which two operands are compared for equality. -/
def equalityOperand? (left right : Ty) : Option Ty :=
  match left.arithmeticResult? right with
  | some numeric => some numeric
  | none =>
      match left, right with
      | .boolean, .boolean => some .boolean
      | .string, .string => some .string
      | .null, other => if other.isReference then some other else none
      | other, .null => if other.isReference then some other else none
      | .object _, .object _ | .array _, .array _ => some left
      | _, _ => none

/--
The type to which both operands of a binary operator are converted, and the
type of the result; none if the operator does not apply.
-/
def binaryTypes? (op : BinaryOp) (left right : Ty) : Option (Ty × Ty) :=
  if left.isVoid || right.isVoid then none
  else
    match op with
    | .add =>
        if left = .string || right = .string then some (.string, .string)
        else (left.arithmeticResult? right).map fun ty => (ty, ty)
    | .sub | .mul | .div | .mod | .pow =>
        (left.arithmeticResult? right).map fun ty => (ty, ty)
    | .shl | .shr | .ushr =>
        if left.isInteger && right.isInteger then
          (left.arithmeticResult? left).map fun ty => (ty, ty)
        else none
    | .bitAnd | .bitOr | .bitXor =>
        if left = .boolean && right = .boolean then some (.boolean, .boolean)
        else if left.isInteger && right.isInteger then
          (left.arithmeticResult? right).map fun ty => (ty, ty)
        else none
    | .eq | .ne => (equalityOperand? left right).map fun ty => (ty, .boolean)
    | .lt | .le | .gt | .ge =>
        if left = .string && right = .string then some (.string, .boolean)
        else (left.arithmeticResult? right).map fun ty => (ty, .boolean)

/-- The type in which a compound assignment is computed. -/
def compoundOperand? (op : BinaryOp) (target value : Ty) : Option Ty :=
  if op = .add && target = .string && !value.isVoid then some .string
  else if op.isComparison || target = .string then none
  else
    match binaryTypes? op target value with
    | some (operand, result) =>
        if result = target || (result.isNumeric && target.isNumeric) then some operand else none
    | none => none

end BotScript
