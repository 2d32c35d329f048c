namespace BotScript

/-!
# Types of the language

The static type of an expression, variable, field or parameter.  Arrays and
instances are references; everything else is copied on assignment.
-/

/-- A type of the language. -/
inductive Ty where
  | void
  | boolean
  | byte
  | short
  | char
  | int
  | long
  | float
  | double
  | string
  | null
  | array (element : Ty)
  | object (className : String)
  deriving Repr, DecidableEq, Inhabited

namespace Ty

/-- The text of a type in messages and signature keys. -/
def text : Ty → String
  | .void => "void"
  | .boolean => "bool"
  | .byte => "byte"
  | .short => "short"
  | .char => "char"
  | .int => "int"
  | .long => "long"
  | .float => "float"
  | .double => "double"
  | .string => "string"
  | .null => "null"
  | .array element => element.text ++ "[]"
  | .object className => className

/-- The place of a numeric type in the order of promotion. -/
def numericRank? : Ty → Option Nat
  | .byte => some 1
  | .short => some 2
  | .char => some 3
  | .int => some 4
  | .long => some 5
  | .float => some 6
  | .double => some 7
  | _ => none

/-- Whether values of a type are numbers. -/
def isNumeric (ty : Ty) : Bool :=
  ty.numericRank?.isSome

/-- Whether values of a type are integers; characters count. -/
def isInteger : Ty → Bool
  | .byte | .short | .char | .int | .long => true
  | _ => false

/-- Whether values of a type are floating-point numbers. -/
def isFloating : Ty → Bool
  | .float | .double => true
  | _ => false

/-- Whether assignment of a type shares what it refers to. -/
def isReference : Ty → Bool
  | .array _ | .object _ | .null => true
  | _ => false

/-- Whether a type has no values. -/
def isVoid : Ty → Bool
  | .void => true
  | _ => false

/-- The element type of an array type. -/
def element? : Ty → Option Ty
  | .array element => some element
  | _ => none

/-- The class name of a class type. -/
def className? : Ty → Option String
  | .object className => some className
  | _ => none

/-- The wider of two numeric types, and `int` at least. -/
def arithmeticResult? (left right : Ty) : Option Ty :=
  match left.numericRank?, right.numericRank? with
  | some leftRank, some rightRank =>
      match max leftRank rightRank with
      | 5 => some .long
      | 6 => some .float
      | 7 => some .double
      | _ => some .int
  | _, _ => none

/-- The width of an integer type in bits. -/
def integerBits? : Ty → Option Nat
  | .byte => some 8
  | .short => some 16
  | .int | .char => some 32
  | .long => some 64
  | _ => none

end Ty

/-- One bound per dimension of an array, outermost first; `none` leaves a dimension open. -/
abbrev Limits := List (Option UInt32)

end BotScript
