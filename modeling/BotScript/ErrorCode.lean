namespace BotScript

/-!
# Error codes

Every failure the compiler or the execution machine can report.  Codes from
5000 are raised by the compiler and codes from 6000 at run time.  The numbers
belong to the language: scripts catch run-time errors by number, and every
code is predefined as a named constant under its name.
-/

/-- Every error the compiler or the execution machine can report. -/
inductive ErrorCode where
  | openPar
  | closePar
  | notBoolean
  | undefinedVariable
  | badLeft
  | noTerminator
  | caseOut
  | noEnd
  | closeBlock
  | elseWithoutIf
  | openBlock
  | badType1
  | redefinedVariable
  | badType2
  | undefinedCall
  | noColon
  | noWhile
  | breakOutside
  | labelPlacement
  | undefinedLabel
  | noCase
  | badNumber
  | voidParameter
  | noType
  | noVariable
  | noFunction
  | tooManyParameters
  | redefinedFunction
  | missingParameters
  | badParameter
  | parameterCount
  | undefinedMember
  | undefinedClass
  | noConstructor
  | redefinedClass
  | closeIndex
  | reservedWord
  | badNew
  | openIndex
  | badString
  | badIndex
  | privateMember
  | publicRequired
  | noExpression
  | ambiguousCall
  | noClassName
  | noReturn
  | defaultValue
  | endQuote
  | badEscape
  | octalRange
  | hexDigits
  | hexRange
  | unicodeName
  | charEmpty
  | redefinedCase
  | zeroDivision
  | notInitialized
  | badThrow
  | noReturnValue
  | notRunning
  | undefinedFunction
  | notAClass
  | nullObject
  | nanOperand
  | outsideArray
  | stackOverflow
  | deletedObject
  | fileOpen
  | fileNotOpen
  | readFailed
  | writeFailed
  deriving Repr, DecidableEq, Inhabited

namespace ErrorCode

/-- All codes, in numeric order. -/
def all : List ErrorCode :=
  [.openPar, .closePar, .notBoolean, .undefinedVariable, .badLeft,
   .noTerminator, .caseOut, .noEnd, .closeBlock, .elseWithoutIf, .openBlock,
   .badType1, .redefinedVariable, .badType2, .undefinedCall, .noColon,
   .noWhile, .breakOutside, .labelPlacement, .undefinedLabel, .noCase,
   .badNumber, .voidParameter, .noType, .noVariable, .noFunction,
   .tooManyParameters, .redefinedFunction, .missingParameters, .badParameter,
   .parameterCount, .undefinedMember, .undefinedClass, .noConstructor,
   .redefinedClass, .closeIndex, .reservedWord, .badNew, .openIndex,
   .badString, .badIndex, .privateMember, .publicRequired, .noExpression,
   .ambiguousCall, .noClassName, .noReturn, .defaultValue, .endQuote,
   .badEscape, .octalRange, .hexDigits, .hexRange, .unicodeName, .charEmpty,
   .redefinedCase, .zeroDivision, .notInitialized, .badThrow, .noReturnValue,
   .notRunning, .undefinedFunction, .notAClass, .nullObject, .nanOperand,
   .outsideArray, .stackOverflow, .deletedObject, .fileOpen, .fileNotOpen,
   .readFailed, .writeFailed]

/-- The number scripts see and catch. -/
def number : ErrorCode → Int32
  | .openPar => 5000
  | .closePar => 5001
  | .notBoolean => 5002
  | .undefinedVariable => 5003
  | .badLeft => 5004
  | .noTerminator => 5005
  | .caseOut => 5006
  | .noEnd => 5007
  | .closeBlock => 5008
  | .elseWithoutIf => 5009
  | .openBlock => 5010
  | .badType1 => 5011
  | .redefinedVariable => 5012
  | .badType2 => 5013
  | .undefinedCall => 5014
  | .noColon => 5015
  | .noWhile => 5016
  | .breakOutside => 5017
  | .labelPlacement => 5018
  | .undefinedLabel => 5019
  | .noCase => 5020
  | .badNumber => 5021
  | .voidParameter => 5022
  | .noType => 5023
  | .noVariable => 5024
  | .noFunction => 5025
  | .tooManyParameters => 5026
  | .redefinedFunction => 5027
  | .missingParameters => 5028
  | .badParameter => 5029
  | .parameterCount => 5030
  | .undefinedMember => 5031
  | .undefinedClass => 5032
  | .noConstructor => 5033
  | .redefinedClass => 5034
  | .closeIndex => 5035
  | .reservedWord => 5036
  | .badNew => 5037
  | .openIndex => 5038
  | .badString => 5039
  | .badIndex => 5040
  | .privateMember => 5041
  | .publicRequired => 5042
  | .noExpression => 5043
  | .ambiguousCall => 5044
  | .noClassName => 5045
  | .noReturn => 5046
  | .defaultValue => 5047
  | .endQuote => 5048
  | .badEscape => 5049
  | .octalRange => 5050
  | .hexDigits => 5051
  | .hexRange => 5052
  | .unicodeName => 5053
  | .charEmpty => 5054
  | .redefinedCase => 5055
  | .zeroDivision => 6000
  | .notInitialized => 6001
  | .badThrow => 6002
  | .noReturnValue => 6003
  | .notRunning => 6004
  | .undefinedFunction => 6005
  | .notAClass => 6006
  | .nullObject => 6007
  | .nanOperand => 6008
  | .outsideArray => 6009
  | .stackOverflow => 6010
  | .deletedObject => 6011
  | .fileOpen => 6012
  | .fileNotOpen => 6013
  | .readFailed => 6014
  | .writeFailed => 6015

/-- The part of the constant's name that tells the codes apart. -/
def label : ErrorCode → String
  | .openPar => "OpenPar"
  | .closePar => "ClosePar"
  | .notBoolean => "NotBoolean"
  | .undefinedVariable => "UndefVar"
  | .badLeft => "BadLeft"
  | .noTerminator => "NoTerminator"
  | .caseOut => "CaseOut"
  | .noEnd => "NoEnd"
  | .closeBlock => "CloseBlock"
  | .elseWithoutIf => "ElseWhitoutIf"
  | .openBlock => "OpenBlock"
  | .badType1 => "BadType1"
  | .redefinedVariable => "RedefVar"
  | .badType2 => "BadType2"
  | .undefinedCall => "UndefCall"
  | .noColon => "NoDoubleDots"
  | .noWhile => "NoWhile"
  | .breakOutside => "BreakOutside"
  | .labelPlacement => "Label"
  | .undefinedLabel => "UndefLabel"
  | .noCase => "NoCase"
  | .badNumber => "BadNum"
  | .voidParameter => "Void"
  | .noType => "NoType"
  | .noVariable => "NoVar"
  | .noFunction => "NoFunc"
  | .tooManyParameters => "OverParam"
  | .redefinedFunction => "RedefFunc"
  | .missingParameters => "LowParam"
  | .badParameter => "BadParam"
  | .parameterCount => "NbParam"
  | .undefinedMember => "UndefItem"
  | .undefinedClass => "UndefClass"
  | .noConstructor => "NoConstruct"
  | .redefinedClass => "RedefClass"
  | .closeIndex => "CloseIndex"
  | .reservedWord => "Reserved"
  | .badNew => "BadNew"
  | .openIndex => "OpenIndex"
  | .badString => "BadString"
  | .badIndex => "BadIndex"
  | .privateMember => "Private"
  | .publicRequired => "NoPublic"
  | .noExpression => "NoExpression"
  | .ambiguousCall => "AmbiguousCall"
  | .noClassName => "NoClassName"
  | .noReturn => "NoReturn"
  | .defaultValue => "DefaultValue"
  | .endQuote => "EndQuote"
  | .badEscape => "BadEscape"
  | .octalRange => "OctalRange"
  | .hexDigits => "HexDigits"
  | .hexRange => "HexRange"
  | .unicodeName => "UnicodeName"
  | .charEmpty => "CharEmpty"
  | .redefinedCase => "RedefCase"
  | .zeroDivision => "ZeroDiv"
  | .notInitialized => "NotInit"
  | .badThrow => "BadThrow"
  | .noReturnValue => "NoRetVal"
  | .notRunning => "NoRun"
  | .undefinedFunction => "UndefFunc"
  | .notAClass => "NotClass"
  | .nullObject => "Null"
  | .nanOperand => "Nan"
  | .outsideArray => "OutArray"
  | .stackOverflow => "StackOver"
  | .deletedObject => "DeletedPtr"
  | .fileOpen => "FileOpen"
  | .fileNotOpen => "NotOpen"
  | .readFailed => "Read"
  | .writeFailed => "Write"

/-- The name of the constant that scripts use to refer to a code. -/
def name (code : ErrorCode) : String :=
  "CBotErr" ++ code.label

/-- The description shown to the user. -/
def message : ErrorCode → String
  | .openPar => "opening parenthesis missing"
  | .closePar => "closing parenthesis missing"
  | .notBoolean => "the expression must return a boolean value"
  | .undefinedVariable => "variable not declared"
  | .badLeft => "assignment impossible"
  | .noTerminator => "semicolon terminator missing"
  | .caseOut => "instruction \"case\" outside a block \"switch\""
  | .noEnd => "instructions after the final closing brace"
  | .closeBlock => "end of block missing"
  | .elseWithoutIf => "instruction \"else\" without corresponding \"if\""
  | .openBlock => "opening brace missing"
  | .badType1 => "wrong type for the assignment"
  | .redefinedVariable => "a variable can not be declared twice"
  | .badType2 => "the types of the two operands are incompatible"
  | .undefinedCall => "unknown function"
  | .noColon => "sign \" : \" missing"
  | .noWhile => "keyword \"while\" missing"
  | .breakOutside => "instruction \"break\" outside a loop"
  | .labelPlacement => "a label must be followed by \"for\", \"while\", \"do\" or \"repeat\""
  | .undefinedLabel => "this label does not exist"
  | .noCase => "instruction \"case\" missing"
  | .badNumber => "number missing"
  | .voidParameter => "void parameter"
  | .noType => "type declaration missing"
  | .noVariable => "variable name missing"
  | .noFunction => "function name missing"
  | .tooManyParameters => "too many parameters"
  | .redefinedFunction => "function already exists"
  | .missingParameters => "parameters missing"
  | .badParameter => "no function with this name accepts this kind of parameter"
  | .parameterCount => "no function with this name accepts this number of parameters"
  | .undefinedMember => "this is not a member of this class"
  | .undefinedClass => "this object is not a member of a class"
  | .noConstructor => "appropriate constructor missing"
  | .redefinedClass => "this class already exists"
  | .closeIndex => "\" ] \" missing"
  | .reservedWord => "reserved keyword of the language"
  | .badNew => "bad argument for \"new\""
  | .openIndex => "\" [ \" expected"
  | .badString => "string missing"
  | .badIndex => "incorrect index type"
  | .privateMember => "private element"
  | .publicRequired => "public required"
  | .noExpression => "expression expected"
  | .ambiguousCall => "ambiguous call to overloaded function"
  | .noClassName => "class name expected"
  | .noReturn => "non-void function needs \"return;\""
  | .defaultValue => "this parameter needs a default value"
  | .endQuote => "missing end quote"
  | .badEscape => "unknown escape sequence"
  | .octalRange => "octal value out of range"
  | .hexDigits => "missing hex digits after escape sequence"
  | .hexRange => "hex value out of range"
  | .unicodeName => "invalid universal character name"
  | .charEmpty => "empty character constant"
  | .redefinedCase => "duplicate label in switch"
  | .zeroDivision => "dividing by zero"
  | .notInitialized => "variable not initialized"
  | .badThrow => "negative value rejected by \"throw\""
  | .noReturnValue => "the function returned no value"
  | .notRunning => "no function running"
  | .undefinedFunction => "calling an unknown function"
  | .notAClass => "this class does not exist"
  | .nullObject => "unknown object"
  | .nanOperand => "operation impossible with value \"nan\""
  | .outsideArray => "access beyond array limit"
  | .stackOverflow => "stack overflow"
  | .deletedObject => "illegal object"
  | .fileOpen => "can't open file"
  | .fileNotOpen => "file not open"
  | .readFailed => "read error"
  | .writeFailed => "write error"

/-- The code with a given number, if there is one. -/
def ofNumber? (number : Int32) : Option ErrorCode :=
  all.find? fun code => code.number == number

/-- Whether a code is raised by the execution machine and not by the compiler. -/
def isRuntime (code : ErrorCode) : Bool :=
  6000 ≤ code.number

end ErrorCode

end BotScript
