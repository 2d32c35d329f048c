import BotScript.Compile.Monad
import BotScript.Compile.Overload
import BotScript.Literal

namespace BotScript

/-!
# Compilation of expressions

From loosest to tightest: assignment, `?:`, the binary operators by level, the
prefix operators, and the suffixes `.`, `[]`, `()`, `++` and `--`.  Each form takes
the compilation of the expressions nested in it as a parameter; the knot is tied
by a bound on the nesting, which no token list exceeds.
-/

namespace Compile

/-! ## Operators and their symbols -/

/-- The binary operator symbols by level, loosest first. -/
def levels : List (List Symbol) :=
  [[.logicalOr, .orKw], [.logicalAnd, .andKw], [.bitOr], [.bitXor], [.bitAnd],
   [.equal, .notEqual], [.less, .greater, .lessEqual, .greaterEqual],
   [.shiftLeft, .shiftRight, .shiftRightUnsigned], [.plus, .minus],
   [.times, .divide, .modulo], [.power]]

/-- The logical operator of a symbol. -/
def logicalOp? : Symbol → Option LogicalOp
  | .logicalAnd | .andKw => some .and
  | .logicalOr | .orKw => some .or
  | _ => none

/-- The binary operator of a symbol. -/
def binaryOp? : Symbol → Option BinaryOp
  | .plus => some .add
  | .minus => some .sub
  | .times => some .mul
  | .divide => some .div
  | .modulo => some .mod
  | .power => some .pow
  | .shiftLeft => some .shl
  | .shiftRight => some .shr
  | .shiftRightUnsigned => some .ushr
  | .bitAnd => some .bitAnd
  | .bitOr => some .bitOr
  | .bitXor => some .bitXor
  | .equal => some .eq
  | .notEqual => some .ne
  | .less => some .lt
  | .lessEqual => some .le
  | .greater => some .gt
  | .greaterEqual => some .ge
  | _ => none

/-- The operator of a compound assignment; plain assignment has none. -/
def compoundOp? : Symbol → Option BinaryOp
  | .assignPlus => some .add
  | .assignMinus => some .sub
  | .assignTimes => some .mul
  | .assignDivide => some .div
  | .assignModulo => some .mod
  | .assignOr => some .bitOr
  | .assignAnd => some .bitAnd
  | .assignXor => some .bitXor
  | .assignShiftLeft => some .shl
  | .assignShiftRight => some .shr
  | .assignShiftRightUnsigned => some .ushr
  | _ => none

/-- The prefix operator of a symbol. -/
def unaryOp? : Symbol → Option UnaryOp
  | .minus => some .neg
  | .plus => some .plus
  | .logicalNot | .notKw => some .not
  | .bitNot => some .bitNot
  | _ => none

/-- The result type of a prefix operator. -/
def unaryType? (op : UnaryOp) (operand : Ty) : Option Ty :=
  match op with
  | .neg | .plus => operand.arithmeticResult? operand
  | .not => if operand = .boolean then some .boolean else none
  | .bitNot => if operand.isInteger then operand.arithmeticResult? operand else none

/-- The type of an integer literal: `int` if the value fits, else `long`. -/
def integerType (value : Int64) : Ty :=
  if value == value.toInt32.toInt64 then .int else .long

/-! ## Members and calls -/

/-- Add the receiver of a class. -/
def addThis (owner : ClassId) (place : Span) : Compile ExprId := do
  addExpr .this (.object ((← tree).classDef owner).name) place

/-- The instance field of a class with a name: its index, its class and its definition. -/
def instanceField? (tree : Tree) (id : ClassId) (name : String) :
    Option (Nat × ClassId × FieldDef) :=
  ((tree.instanceFields id).zipIdx.reverse.find? fun entry => entry.1.2.name == name).map
    fun ((owner, field), index) => (index, owner, field)

/-- The static field with a name of the first class of a chain that has it. -/
def staticField? (tree : Tree) (name : String) :
    List ClassId → Option (Nat × ClassId × FieldDef)
  | [] => none
  | owner :: ancestors =>
      match (tree.classDef owner).statics.zipIdx.find? fun entry => entry.1.name == name with
      | some (field, index) => some (index, owner, field)
      | none => staticField? tree name ancestors

/--
The field of a class with a name, reached through an object or else through the
receiver of the current method; static fields are found either way.
-/
def fieldAccess? (object : Option ExprId) (id : ClassId) (name : String) (place : Span) :
    Compile (Option ExprId) := do
  let state ← get
  let found :=
    if object.isSome || state.scope.hasThis then instanceField? state.tree id name else none
  match found with
  | some (index, owner, field) =>
      checkAccess owner field.visibility place
      let object ←
        match object with
        | some object => pure object
        | none => addThis id place
      let whole := (← spanOf object).merge place
      return some (← addExpr (.field object (Word.ofNat index)) field.ty whole)
  | none =>
      match staticField? (← tree) name ((← tree).classChain id) with
      | some (index, owner, field) =>
          checkAccess owner field.visibility place
          return some (← addExpr (.staticField owner (Word.ofNat index)) field.ty place)
      | none => return none

/-- Consume the arguments of a call in parentheses. -/
def arguments (nested : Compile ExprId) : Compile (List ExprId) := do
  expect .openPar .openPar
  if ← eat .closePar then return []
  loop (fun collected => do
    let collected := collected ++ [← nested]
    if ← eat .closePar then return .done collected
    expect .comma .closePar
    return .again collected) []

/-- The candidate that a call selects, with its error at a span. -/
def selectOverload (candidates : List MethodImpl) (types : List Ty) (place : Span) :
    Compile Overload := do
  checkAt place ((← tree).resolveOverload (← read).registry candidates types)

/-- Add the call of a method of an object with compiled arguments. -/
def methodCall
    (object : ExprId) (id : ClassId) (name : String) (place : Span) (arguments : List ExprId) :
    Compile ExprId := do
  let types ← arguments.mapM typeOf
  let candidates := (← tree).methodCandidates id name
  if candidates.isEmpty then failAt .undefinedMember place
  let overload ← selectOverload (candidates.map (·.target)) types place
  let chosen ← requireAt .undefinedMember place
    (candidates.find? fun candidate => candidate.target == overload.target)
  checkAccess chosen.owner chosen.visibility place
  let whole ← spanFrom (← spanOf object)
  addExpr (.methodCall object chosen.slot overload.target (arguments ++ overload.defaults))
    overload.result whole

/--
Add an unqualified call with compiled arguments: of a method of the receiver if
there is one with the name, else of a host function, else of a function of the program.
-/
def unqualifiedCall (name : String) (place : Span) (arguments : List ExprId) :
    Compile ExprId := do
  let types ← arguments.mapM typeOf
  let whole ← spanFrom place
  let scope := (← get).scope
  let receiverClass := if scope.hasThis then scope.owner else none
  match receiverClass with
  | some id =>
      if !((← tree).methodCandidates id name).isEmpty then
        let this ← addThis id place
        return ← methodCall this id name place arguments
  | none => pure ()
  let registry := (← read).registry
  match registry.resolve? types (registry.functionsNamed name) with
  | some found =>
      let (native, result) ← checkAt place found
      addExpr (.nativeCall native arguments) result whole
  | none =>
      let candidates := (← tree).functionsNamed name
      if candidates.isEmpty then failAt .undefinedCall place
      let overload ← selectOverload (candidates.map .user) types place
      match overload.target with
      | .user function =>
          addExpr (.call function (arguments ++ overload.defaults)) overload.result whole
      | .native _ => failAt .undefinedCall place

/-- Add the construction of an instance with compiled arguments. -/
def construction (id : ClassId) (arguments : List ExprId) (place : Span) : Compile ExprId := do
  let ty := Ty.object ((← tree).classDef id).name
  let constructors := (← tree).constructors id
  if constructors.isEmpty then
    if !arguments.isEmpty then failAt .noConstructor place
    addExpr (.new id none arguments) ty place
  else
    let types ← arguments.mapM typeOf
    match (← tree).resolveOverload (← read).registry (constructors.map (·.target)) types with
    | .error _ => failAt .noConstructor place
    | .ok overload =>
        match constructors.find? fun candidate => candidate.target == overload.target with
        | some chosen => checkAccess chosen.owner chosen.visibility place
        | none => pure ()
        addExpr (.new id (some overload.target) (arguments ++ overload.defaults)) ty place

/-! ## Primary expressions and suffixes -/

/-- The construction at the keyword `new`. -/
def newExpression (nested : Compile ExprId) : Compile ExprId := do
  let start ← span
  advance
  let (name, nameSpan) ← expectIdentifier .noClassName
  let id ← requireAt .badNew nameSpan (← resolveClass? name)
  let values ← if ← at' .openPar then arguments nested else pure []
  construction id values (← spanFrom start)

/-- The expression at an identifier: a call, the receiver, a variable or a field. -/
def identifier (nested : Compile ExprId) : Compile ExprId := do
  let name ← text
  let place ← span
  advance
  if ← at' .openPar then
    let values ← arguments nested
    return ← unqualifiedCall name place values
  let scope := (← get).scope
  if name == "this" then
    match scope.hasThis, scope.owner with
    | true, some owner => return ← addThis owner place
    | _, _ => failAt .undefinedVariable place
  match scope.lookup? name with
  | some (slot, ty) => addExpr (.localVar slot) ty place
  | none =>
      let field ←
        match scope.owner with
        | some owner => fieldAccess? none owner name place
        | none => pure none
      requireAt .undefinedVariable place field

/-- Consume a token as a literal. -/
def addLiteral (value : LiteralValue) (ty : Ty) : Compile ExprId := do
  let place ← span
  advance
  addExpr (.literal value) ty place

/-- The expression at the current token, without suffixes. -/
def primary (nested : Compile ExprId) : Compile ExprId := do
  let token ← current
  match token.kind with
  | .number =>
      match ← checkAt token.span (Literal.number token.text.toList) with
      | .int value => addLiteral (.int value) (integerType value)
      | .float value => addLiteral (.float value.toSingle) .float
  | .string =>
      let value ← checkAt token.span (Literal.string token.text.toList)
      addLiteral (.str value) .string
  | .character =>
      let value ← checkAt token.span (Literal.character token.text.toList)
      addLiteral (.int (Int64.ofNat value.toNat)) .char
  | .constant value => addLiteral (.int value) (integerType value)
  | .identifier => identifier nested
  | .symbol .trueKw => addLiteral (.bool true) .boolean
  | .symbol .falseKw => addLiteral (.bool false) .boolean
  | .symbol .nullKw => addLiteral .null .null
  | .symbol .nanKw => addLiteral .nan .int
  | .symbol .openPar =>
      advance
      let inner ← nested
      expect .closePar .closePar
      return inner
  | .symbol .newKw => newExpression nested
  | .symbol _ | .endOfText => fail .noExpression

/-- The member behind a point. -/
def member (nested : Compile ExprId) (object : ExprId) : Compile ExprId := do
  let id ← requireAt .undefinedClass (← spanOf object) (← classOf? (← typeOf object))
  let (name, place) ← expectIdentifier .undefinedMember
  if ← at' .openPar then
    let values ← arguments nested
    methodCall object id name place values
  else requireAt .undefinedMember place (← fieldAccess? (some object) id name place)

/-- The element behind an opening bracket. -/
def element (nested : Compile ExprId) (array : ExprId) : Compile ExprId := do
  let ty ← requireAt .badIndex (← spanOf array) (← typeOf array).element?
  let position ← nested
  if !(← typeOf position).isInteger then failAt .badIndex (← spanOf position)
  expect .closeBracket .closeIndex
  addExpr (.index array position) ty (← spanFrom (← spanOf array))

/-- Add a step of a variable by one. -/
def addStep (op : StepOp) (target : ExprId) (start : Span) : Compile ExprId := do
  let node := (← tree).expr target
  if !node.kind.isPlace then failAt .badLeft node.span
  if !node.ty.isNumeric then failAt .badType1 node.span
  addExpr (.step op target) node.ty (← spanFrom start)

/-- A primary expression with its suffixes. -/
def suffixed (nested : Compile ExprId) : Compile ExprId := do
  loop (fun value => do
    match ← symbol? with
    | some .dot =>
        advance
        return .again (← member nested value)
    | some .openBracket =>
        advance
        return .again (← element nested value)
    | some .increment =>
        advance
        return .again (← addStep .postIncrement value (← spanOf value))
    | some .decrement =>
        advance
        return .again (← addStep .postDecrement value (← spanOf value))
    | _ => return .done value) (← primary nested)

/-! ## Operators -/

/-- A suffixed expression with at most a number of prefix operators. -/
def prefixedWithin (nested : Compile ExprId) : Nat → Compile ExprId
  | 0 => fail .noExpression
  | bound + 1 => do
      let start ← span
      match ← symbol? with
      | none => suffixed nested
      | some symbol =>
          match unaryOp? symbol with
          | some op =>
              advance
              let operand ← prefixedWithin nested bound
              let result ← requireAt .badType1 (← spanOf operand)
                (unaryType? op (← typeOf operand))
              addExpr (.unary op operand) result (← spanFrom start)
          | none =>
              if symbol == .increment || symbol == .decrement then
                advance
                let target ← prefixedWithin nested bound
                addStep (if symbol == .increment then .preIncrement else .preDecrement)
                  target start
              else suffixed nested

/-- A suffixed expression with its prefix operators. -/
def prefixed (nested : Compile ExprId) : Compile ExprId := do
  prefixedWithin nested ((← tokenCount) + 1)

/-- Add the application of a binary or logical operator. -/
def combine (symbol : Symbol) (symbolSpan : Span) (left right : ExprId) : Compile ExprId := do
  let whole := (← spanOf left).merge (← spanOf right)
  let leftType ← typeOf left
  let rightType ← typeOf right
  match logicalOp? symbol with
  | some op =>
      if leftType != .boolean || rightType != .boolean then failAt .badType2 symbolSpan
      addExpr (.logical op left right) .boolean whole
  | none =>
      let op ← requireAt .badType2 symbolSpan (binaryOp? symbol)
      let (operand, result) ← requireAt .badType2 symbolSpan (binaryTypes? op leftType rightType)
      addExpr (.binary op operand left right) result whole

/-- Operands joined by operators of one level, from the left. -/
def joined (operators : List Symbol) (operand : Compile ExprId) : Compile ExprId := do
  loop (fun left => do
    match ← eatAny? operators with
    | none => return .done left
    | some symbol =>
        let symbolSpan ← previousSpan
        let right ← operand
        return .again (← combine symbol symbolSpan left right)) (← operand)

/-- An expression of binary operators of the given levels. -/
def binary (operand : Compile ExprId) : List (List Symbol) → Compile ExprId
  | [] => operand
  | operators :: tighter => joined operators (binary operand tighter)

/-- A conditional expression, or only its condition. -/
def conditional (nested : Compile ExprId) : Compile ExprId := do
  let condition ← binary (prefixed nested) levels
  if !(← eat .question) then return condition
  if (← typeOf condition) != .boolean then failAt .badType1 (← spanOf condition)
  let whenTrue ← nested
  expect .colon .noColon
  let whenFalse ← nested
  let ty ← requireAt .badType2 (← spanOf whenFalse)
    ((← tree).commonType? (← typeOf whenTrue) (← typeOf whenFalse))
  let whole := (← spanOf condition).merge (← spanOf whenFalse)
  addExpr (.conditional condition whenTrue whenFalse) ty whole

/-- An expression whose value fits a type. -/
def fitting (nested : Compile ExprId) (ty : Ty) : Compile ExprId := do
  let value ← nested
  checkAssignable value ty
  return value

/--
The value that a declaration or an assignment stores: an expression, or a list
in braces if an array is stored.
-/
def initializer (nested : Compile ExprId) : Ty → Compile ExprId
  | .array elementType => do
      if ← at' .openBlock then
        let start ← span
        advance
        let items ←
          if ← eat .closeBlock then pure []
          else
            loop (fun items => do
              let items := items ++ [← initializer nested elementType]
              if ← eat .closeBlock then return .done items
              expect .comma .closeBlock
              return .again items) []
        addExpr (.arrayLiteral items) (.array elementType) (← spanFrom start)
      else fitting nested (.array elementType)
  | ty => fitting nested ty

/-- An assignment, or only a conditional expression. -/
def assignment (nested : Compile ExprId) : Compile ExprId := do
  let target ← conditional nested
  match (← symbol?).filter Symbol.isAssignment with
  | none => return target
  | some symbol =>
      let symbolSpan ← span
      let node := (← tree).expr target
      if !node.kind.isPlace then failAt .badLeft node.span
      advance
      match compoundOp? symbol with
      | none =>
          let value ← initializer nested node.ty
          addExpr (.assign none node.ty target value) node.ty
            (node.span.merge (← spanOf value))
      | some op =>
          let value ← nested
          let operand ← requireAt .badType2 symbolSpan
            (compoundOperand? op node.ty (← typeOf value))
          addExpr (.assign (some op) operand target value) node.ty
            (node.span.merge (← spanOf value))

/-- An expression whose nested expressions go no deeper than a bound. -/
def expressionWithin : Nat → Compile ExprId
  | 0 => fail .noExpression
  | bound + 1 => assignment (expressionWithin bound)

/-- An expression; every nested expression starts behind a token of its own. -/
def expression : Compile ExprId := do
  expressionWithin ((← tokenCount) + 1)

end Compile

end BotScript
