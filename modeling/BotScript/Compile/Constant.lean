import BotScript.Tree.Item
import BotScript.Value.Operator

namespace BotScript

/-!
# Constant expressions

Literals and operators over literals have a value when the program is
compiled; whatever reads a variable or calls a function has none.
-/

/-- The outcome of a constant: its value, no value, or the error that computing it raises. -/
abbrev Constancy := Except ErrorCode (Option Value)

namespace Tree

/-- A constant value converted from one type to another; constants refer to nothing on a heap. -/
def convertConstant (value : Value) (source target : Ty) : Except ErrorCode Value :=
  match ({} : Heap).convert value source target with
  | .ok value => .ok value
  | .error (.error code) => .error code
  | .error _ => .error .badType1

/-- The value of an operand converted to a type, if the operand has one. -/
def constantAs
    (tree : Tree) (parts : ExprId → Constancy) (part : ExprId) (ty : Ty) : Constancy := do
  match ← parts part with
  | some value => return some (← convertConstant value (tree.expr part).ty ty)
  | none => return none

/-- The value of an expression from the values of its parts. -/
def constantOf (tree : Tree) (parts : ExprId → Constancy) (node : Expr) : Constancy :=
  match node.kind with
  | .literal value => .ok (some (Value.ofLiteral value))
  | .unary op operand => do
      match ← tree.constantAs parts operand node.ty with
      | some value => return some (← op.apply node.ty value)
      | none => return none
  | .binary op operandType left right => do
      let leftValue ← tree.constantAs parts left operandType
      let rightValue ← tree.constantAs parts right operandType
      match leftValue, rightValue with
      | some leftValue, some rightValue =>
          return some (← op.apply operandType leftValue rightValue)
      | _, _ => return none
  | .logical op left right => do
      let leftValue ← parts left
      let rightValue ← parts right
      match leftValue, rightValue with
      | some leftValue, some rightValue =>
          let leftTruth ← leftValue.truth
          let rightTruth ← rightValue.truth
          match op with
          | .and => return some (.bool (leftTruth && rightTruth))
          | .or => return some (.bool (leftTruth || rightTruth))
      | _, _ => return none
  | .conditional condition whenTrue whenFalse => do
      match ← parts condition with
      | some value =>
          tree.constantAs parts (if ← value.truth then whenTrue else whenFalse) node.ty
      | none => return none
  | _ => .ok none

/-- The value of a constant expression whose parts are nested no deeper than a bound. -/
def constantWithin (tree : Tree) : Nat → ExprId → Constancy
  | 0, _ => .ok none
  | bound + 1, id => tree.constantOf (tree.constantWithin bound) (tree.expr id)

/-- The value of a constant expression. -/
def constant? (tree : Tree) (id : ExprId) : Constancy :=
  tree.constantWithin tree.exprs.size id

end Tree

end BotScript
