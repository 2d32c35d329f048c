namespace BotScript

/-!
# Operators

The operators that expression nodes carry.
-/

/-- An operator with two evaluated operands. -/
inductive BinaryOp where
  | add
  | sub
  | mul
  | div
  | mod
  | pow
  | shl
  | shr
  | ushr
  | bitAnd
  | bitOr
  | bitXor
  | eq
  | ne
  | lt
  | le
  | gt
  | ge
  deriving Repr, DecidableEq, Inhabited

namespace BinaryOp

/-- All binary operators. -/
def all : List BinaryOp :=
  [.add, .sub, .mul, .div, .mod, .pow, .shl, .shr, .ushr, .bitAnd, .bitOr, .bitXor,
   .eq, .ne, .lt, .le, .gt, .ge]

/-- Whether an operator compares its operands. -/
def isComparison : BinaryOp → Bool
  | .eq | .ne | .lt | .le | .gt | .ge => true
  | _ => false

/-- Whether an operator tests its operands for equality. -/
def isEquality : BinaryOp → Bool
  | .eq | .ne => true
  | _ => false

/-- Whether an operator shifts its left operand. -/
def isShift : BinaryOp → Bool
  | .shl | .shr | .ushr => true
  | _ => false

/-- Whether an operator works bit by bit. -/
def isBitwise : BinaryOp → Bool
  | .bitAnd | .bitOr | .bitXor => true
  | _ => false

/-- The source text of an operator. -/
def text : BinaryOp → String
  | .add => "+"
  | .sub => "-"
  | .mul => "*"
  | .div => "/"
  | .mod => "%"
  | .pow => "**"
  | .shl => "<<"
  | .shr => ">>"
  | .ushr => ">>>"
  | .bitAnd => "&"
  | .bitOr => "|"
  | .bitXor => "^"
  | .eq => "=="
  | .ne => "!="
  | .lt => "<"
  | .le => "<="
  | .gt => ">"
  | .ge => ">="

end BinaryOp

/-- An operator that may leave its right operand unevaluated. -/
inductive LogicalOp where
  | and
  | or
  deriving Repr, DecidableEq, Inhabited

/-- An operator in front of its operand. -/
inductive UnaryOp where
  | neg
  | plus
  | not
  | bitNot
  deriving Repr, DecidableEq, Inhabited

/-- An operator that changes a variable by one. -/
inductive StepOp where
  | preIncrement
  | preDecrement
  | postIncrement
  | postDecrement
  deriving Repr, DecidableEq, Inhabited

namespace StepOp

/-- The amount by which a step changes its variable. -/
def delta : StepOp → Int64
  | .preIncrement | .postIncrement => 1
  | .preDecrement | .postDecrement => -1

/-- Whether a step delivers the value from before the change. -/
def isPostfix : StepOp → Bool
  | .postIncrement | .postDecrement => true
  | .preIncrement | .preDecrement => false

end StepOp

end BotScript
