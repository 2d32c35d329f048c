namespace BotScript

/-!
# Reserved symbols

The keywords and operators of the language.  The operators are found by
longest match: `>>>=` wins over `>>=`, which wins over `>>` and `>`.
-/

/-- A keyword or an operator of the language. -/
inductive Symbol where
  | ifKw
  | elseKw
  | whileKw
  | doKw
  | forKw
  | breakKw
  | continueKw
  | switchKw
  | caseKw
  | defaultKw
  | tryKw
  | throwKw
  | catchKw
  | finallyKw
  | andKw
  | orKw
  | notKw
  | returnKw
  | classKw
  | extendsKw
  | synchronizedKw
  | newKw
  | publicKw
  | externKw
  | staticKw
  | protectedKw
  | privateKw
  | repeatKw
  | intKw
  | floatKw
  | booleanKw
  | stringKw
  | voidKw
  | boolKw
  | byteKw
  | shortKw
  | charKw
  | longKw
  | doubleKw
  | trueKw
  | falseKw
  | nullKw
  | nanKw
  | openPar
  | closePar
  | openBlock
  | closeBlock
  | semicolon
  | comma
  | colon
  | dot
  | openBracket
  | closeBracket
  | doubleColon
  | question
  | plus
  | minus
  | times
  | divide
  | assign
  | assignPlus
  | assignMinus
  | assignTimes
  | assignDivide
  | assignOr
  | assignAnd
  | assignXor
  | assignShiftLeft
  | assignShiftRightUnsigned
  | assignShiftRight
  | shiftLeft
  | shiftRightUnsigned
  | shiftRight
  | increment
  | decrement
  | less
  | greater
  | lessEqual
  | greaterEqual
  | equal
  | notEqual
  | bitAnd
  | bitXor
  | bitOr
  | logicalAnd
  | logicalOr
  | logicalNot
  | bitNot
  | modulo
  | power
  | assignModulo
  deriving Repr, DecidableEq, Inhabited

namespace Symbol

/-- The word keywords, in table order. -/
def keywords : List Symbol :=
  [.ifKw, .elseKw, .whileKw, .doKw, .forKw, .breakKw, .continueKw, .switchKw,
   .caseKw, .defaultKw, .tryKw, .throwKw, .catchKw, .finallyKw, .andKw,
   .orKw, .notKw, .returnKw, .classKw, .extendsKw, .synchronizedKw, .newKw,
   .publicKw, .externKw, .staticKw, .protectedKw, .privateKw, .repeatKw,
   .intKw, .floatKw, .booleanKw, .stringKw, .voidKw, .boolKw, .byteKw,
   .shortKw, .charKw, .longKw, .doubleKw, .trueKw, .falseKw, .nullKw, .nanKw]

/-- The operators and punctuation marks, in table order. -/
def operators : List Symbol :=
  [.openPar, .closePar, .openBlock, .closeBlock, .semicolon, .comma, .colon,
   .dot, .openBracket, .closeBracket, .doubleColon, .question, .plus, .minus,
   .times, .divide, .assign, .assignPlus, .assignMinus, .assignTimes,
   .assignDivide, .assignOr, .assignAnd, .assignXor, .assignShiftLeft,
   .assignShiftRightUnsigned, .assignShiftRight, .shiftLeft,
   .shiftRightUnsigned, .shiftRight, .increment, .decrement, .less, .greater,
   .lessEqual, .greaterEqual, .equal, .notEqual, .bitAnd, .bitXor, .bitOr,
   .logicalAnd, .logicalOr, .logicalNot, .bitNot, .modulo, .power,
   .assignModulo]

/-- The source text of a symbol. -/
def text : Symbol → String
  | .ifKw => "if"
  | .elseKw => "else"
  | .whileKw => "while"
  | .doKw => "do"
  | .forKw => "for"
  | .breakKw => "break"
  | .continueKw => "continue"
  | .switchKw => "switch"
  | .caseKw => "case"
  | .defaultKw => "default"
  | .tryKw => "try"
  | .throwKw => "throw"
  | .catchKw => "catch"
  | .finallyKw => "finally"
  | .andKw => "and"
  | .orKw => "or"
  | .notKw => "not"
  | .returnKw => "return"
  | .classKw => "class"
  | .extendsKw => "extends"
  | .synchronizedKw => "synchronized"
  | .newKw => "new"
  | .publicKw => "public"
  | .externKw => "extern"
  | .staticKw => "static"
  | .protectedKw => "protected"
  | .privateKw => "private"
  | .repeatKw => "repeat"
  | .intKw => "int"
  | .floatKw => "float"
  | .booleanKw => "boolean"
  | .stringKw => "string"
  | .voidKw => "void"
  | .boolKw => "bool"
  | .byteKw => "byte"
  | .shortKw => "short"
  | .charKw => "char"
  | .longKw => "long"
  | .doubleKw => "double"
  | .trueKw => "true"
  | .falseKw => "false"
  | .nullKw => "null"
  | .nanKw => "nan"
  | .openPar => "("
  | .closePar => ")"
  | .openBlock => "\x7b"
  | .closeBlock => "\x7d"
  | .semicolon => ";"
  | .comma => ","
  | .colon => ":"
  | .dot => "."
  | .openBracket => "["
  | .closeBracket => "]"
  | .doubleColon => "::"
  | .question => "?"
  | .plus => "+"
  | .minus => "-"
  | .times => "*"
  | .divide => "/"
  | .assign => "="
  | .assignPlus => "+="
  | .assignMinus => "-="
  | .assignTimes => "*="
  | .assignDivide => "/="
  | .assignOr => "|="
  | .assignAnd => "&="
  | .assignXor => "^="
  | .assignShiftLeft => "<<="
  | .assignShiftRightUnsigned => ">>>="
  | .assignShiftRight => ">>="
  | .shiftLeft => "<<"
  | .shiftRightUnsigned => ">>>"
  | .shiftRight => ">>"
  | .increment => "++"
  | .decrement => "--"
  | .less => "<"
  | .greater => ">"
  | .lessEqual => "<="
  | .greaterEqual => ">="
  | .equal => "=="
  | .notEqual => "!="
  | .bitAnd => "&"
  | .bitXor => "^"
  | .bitOr => "|"
  | .logicalAnd => "&&"
  | .logicalOr => "||"
  | .logicalNot => "!"
  | .bitNot => "~"
  | .modulo => "%"
  | .power => "**"
  | .assignModulo => "%="

/-- The traditional identifier of a symbol. -/
def identifier : Symbol → String
  | .ifKw => "ID_IF"
  | .elseKw => "ID_ELSE"
  | .whileKw => "ID_WHILE"
  | .doKw => "ID_DO"
  | .forKw => "ID_FOR"
  | .breakKw => "ID_BREAK"
  | .continueKw => "ID_CONTINUE"
  | .switchKw => "ID_SWITCH"
  | .caseKw => "ID_CASE"
  | .defaultKw => "ID_DEFAULT"
  | .tryKw => "ID_TRY"
  | .throwKw => "ID_THROW"
  | .catchKw => "ID_CATCH"
  | .finallyKw => "ID_FINALLY"
  | .andKw => "ID_TXT_AND"
  | .orKw => "ID_TXT_OR"
  | .notKw => "ID_TXT_NOT"
  | .returnKw => "ID_RETURN"
  | .classKw => "ID_CLASS"
  | .extendsKw => "ID_EXTENDS"
  | .synchronizedKw => "ID_SYNCHO"
  | .newKw => "ID_NEW"
  | .publicKw => "ID_PUBLIC"
  | .externKw => "ID_EXTERN"
  | .staticKw => "ID_STATIC"
  | .protectedKw => "ID_PROTECTED"
  | .privateKw => "ID_PRIVATE"
  | .repeatKw => "ID_REPEAT"
  | .intKw => "ID_INT"
  | .floatKw => "ID_FLOAT"
  | .booleanKw => "ID_BOOLEAN"
  | .stringKw => "ID_STRING"
  | .voidKw => "ID_VOID"
  | .boolKw => "ID_BOOL"
  | .byteKw => "ID_BYTE"
  | .shortKw => "ID_SHORT"
  | .charKw => "ID_CHAR"
  | .longKw => "ID_LONG"
  | .doubleKw => "ID_DOUBLE"
  | .trueKw => "ID_TRUE"
  | .falseKw => "ID_FALSE"
  | .nullKw => "ID_NULL"
  | .nanKw => "ID_NAN"
  | .openPar => "ID_OPENPAR"
  | .closePar => "ID_CLOSEPAR"
  | .openBlock => "ID_OPBLK"
  | .closeBlock => "ID_CLBLK"
  | .semicolon => "ID_SEP"
  | .comma => "ID_COMMA"
  | .colon => "ID_DOTS"
  | .dot => "ID_DOT"
  | .openBracket => "ID_OPBRK"
  | .closeBracket => "ID_CLBRK"
  | .doubleColon => "ID_DBLDOTS"
  | .question => "ID_LOGIC"
  | .plus => "ID_ADD"
  | .minus => "ID_SUB"
  | .times => "ID_MUL"
  | .divide => "ID_DIV"
  | .assign => "ID_ASS"
  | .assignPlus => "ID_ASSADD"
  | .assignMinus => "ID_ASSSUB"
  | .assignTimes => "ID_ASSMUL"
  | .assignDivide => "ID_ASSDIV"
  | .assignOr => "ID_ASSOR"
  | .assignAnd => "ID_ASSAND"
  | .assignXor => "ID_ASSXOR"
  | .assignShiftLeft => "ID_ASSSL"
  | .assignShiftRightUnsigned => "ID_ASSSR"
  | .assignShiftRight => "ID_ASSASR"
  | .shiftLeft => "ID_SL"
  | .shiftRightUnsigned => "ID_SR"
  | .shiftRight => "ID_ASR"
  | .increment => "ID_INC"
  | .decrement => "ID_DEC"
  | .less => "ID_LO"
  | .greater => "ID_HI"
  | .lessEqual => "ID_LS"
  | .greaterEqual => "ID_HS"
  | .equal => "ID_EQ"
  | .notEqual => "ID_NE"
  | .bitAnd => "ID_AND"
  | .bitXor => "ID_XOR"
  | .bitOr => "ID_OR"
  | .logicalAnd => "ID_LOG_AND"
  | .logicalOr => "ID_LOG_OR"
  | .logicalNot => "ID_LOG_NOT"
  | .bitNot => "ID_NOT"
  | .modulo => "ID_MODULO"
  | .power => "ID_POWER"
  | .assignModulo => "ID_ASSMODULO"

/-- The short name of a symbol in token listings. -/
def label : Symbol → String
  | .ifKw => "If"
  | .elseKw => "Else"
  | .whileKw => "While"
  | .doKw => "Do"
  | .forKw => "For"
  | .breakKw => "Break"
  | .continueKw => "Continue"
  | .switchKw => "Switch"
  | .caseKw => "Case"
  | .defaultKw => "Default"
  | .tryKw => "Try"
  | .throwKw => "Throw"
  | .catchKw => "Catch"
  | .finallyKw => "Finally"
  | .andKw => "TxtAnd"
  | .orKw => "TxtOr"
  | .notKw => "TxtNot"
  | .returnKw => "Return"
  | .classKw => "Class"
  | .extendsKw => "Extends"
  | .synchronizedKw => "Synchronized"
  | .newKw => "New"
  | .publicKw => "Public"
  | .externKw => "Extern"
  | .staticKw => "Static"
  | .protectedKw => "Protected"
  | .privateKw => "Private"
  | .repeatKw => "Repeat"
  | .intKw => "Int"
  | .floatKw => "Float"
  | .booleanKw => "Boolean"
  | .stringKw => "String"
  | .voidKw => "Void"
  | .boolKw => "Bool"
  | .byteKw => "Byte"
  | .shortKw => "Short"
  | .charKw => "Char"
  | .longKw => "Long"
  | .doubleKw => "Double"
  | .trueKw => "True"
  | .falseKw => "False"
  | .nullKw => "Null"
  | .nanKw => "Nan"
  | .openPar => "OpenPar"
  | .closePar => "ClosePar"
  | .openBlock => "OpenBlock"
  | .closeBlock => "CloseBlock"
  | .semicolon => "Semicolon"
  | .comma => "Comma"
  | .colon => "Colon"
  | .dot => "Dot"
  | .openBracket => "OpenBracket"
  | .closeBracket => "CloseBracket"
  | .doubleColon => "DoubleColon"
  | .question => "Question"
  | .plus => "Add"
  | .minus => "Sub"
  | .times => "Mul"
  | .divide => "Div"
  | .assign => "Assign"
  | .assignPlus => "AssignAdd"
  | .assignMinus => "AssignSub"
  | .assignTimes => "AssignMul"
  | .assignDivide => "AssignDiv"
  | .assignOr => "AssignOr"
  | .assignAnd => "AssignAnd"
  | .assignXor => "AssignXor"
  | .assignShiftLeft => "AssignShl"
  | .assignShiftRightUnsigned => "AssignUshr"
  | .assignShiftRight => "AssignShr"
  | .shiftLeft => "Shl"
  | .shiftRightUnsigned => "Ushr"
  | .shiftRight => "Shr"
  | .increment => "Inc"
  | .decrement => "Dec"
  | .less => "Lt"
  | .greater => "Gt"
  | .lessEqual => "Le"
  | .greaterEqual => "Ge"
  | .equal => "Eq"
  | .notEqual => "Ne"
  | .bitAnd => "BitAnd"
  | .bitXor => "BitXor"
  | .bitOr => "BitOr"
  | .logicalAnd => "LogAnd"
  | .logicalOr => "LogOr"
  | .logicalNot => "LogNot"
  | .bitNot => "BitNot"
  | .modulo => "Modulo"
  | .power => "Power"
  | .assignModulo => "AssignModulo"

/-- The keyword with exactly this text. -/
def keyword? (word : String) : Option Symbol :=
  keywords.find? fun symbol => symbol.text == word

/-- The operator with exactly this text. -/
def operator? (text : String) : Option Symbol :=
  operators.find? fun symbol => symbol.text == text

/-- The longest operator the given text starts with; no operator has more than four characters. -/
def longestOperator? (text : List Char) : Option Symbol :=
  [4, 3, 2, 1].findSome? fun length =>
    if length ≤ text.length then operator? (String.ofList (text.take length)) else none

/-- Whether a symbol names a primitive type. -/
def isTypeKeyword : Symbol → Bool
  | .intKw | .floatKw | .booleanKw | .stringKw | .voidKw | .boolKw | .byteKw | .shortKw
  | .charKw | .longKw | .doubleKw => true
  | _ => false

/-- Whether a symbol is a simple or compound assignment operator. -/
def isAssignment : Symbol → Bool
  | .assign | .assignPlus | .assignMinus | .assignTimes | .assignDivide | .assignOr
  | .assignAnd | .assignXor | .assignShiftLeft | .assignShiftRightUnsigned
  | .assignShiftRight | .assignModulo => true
  | _ => false

/-- Whether a symbol is a declaration modifier. -/
def isModifier : Symbol → Bool
  | .publicKw | .privateKw | .protectedKw | .staticKw | .externKw | .synchronizedKw => true
  | _ => false

end Symbol

end BotScript
