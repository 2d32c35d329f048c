import BotScript.Compile.Expression
import BotScript.Value.Array

namespace BotScript

/-!
# Compilation of statements

As for expressions, each form takes the compilation of the statements nested in
it as a parameter.
-/

namespace Compile

/-! ## Declarations of variables -/

/-- The limit that a constant size stands for. -/
def limitOf (size : ExprId) : Compile UInt32 := do
  let place ← spanOf size
  if !(← typeOf size).isInteger then failAt .badIndex place
  let value ← requireAt .badIndex place (← constantValue size .badIndex).int?
  if value < 0 || UInt32.size ≤ value.toInt.toNat then failAt .badIndex place
  if ArrayData.greatestIndex < value.toInt.toNat then failAt .outsideArray place
  return UInt32.ofNat value.toInt.toNat

/-- Consume the limits behind a declared name, outermost first. -/
def parseLimits : Compile Limits :=
  loop (fun limits => do
    if ← eat .openBracket then
      if ← eat .closeBracket then return .again (limits ++ [none])
      else
        let limit ← limitOf (← expression)
        expect .closeBracket .closeIndex
        return .again (limits ++ [some limit])
    else return .done limits) []

/-- A type with a number of array dimensions around it. -/
def wrapArray (base : Ty) : Nat → Ty
  | 0 => base
  | count + 1 => .array (wrapArray base count)

/-- Consume limits behind a name, and the type and all limits they give with a base type. -/
def declaredType (base : Ty) : Compile (Ty × Limits) := do
  let limits ← parseLimits
  return (wrapArray base limits.length, limits ++ List.replicate (arrayDepth base) none)

/-- Declare a variable in the current block. -/
def declareVariable (name : String) (ty : Ty) (place : Span) : Compile LocalSlot := do
  let (slot, scope) ← checkAt place ((← get).scope.declare name ty)
  modify fun state => { state with scope }
  return slot

/-- The value a declared variable starts with: constructor arguments or an assigned value. -/
def initialValue (ty : Ty) (place : Span) : Compile (Option ExprId) := do
  match ← classOf? ty with
  | some id =>
      if ← at' .openPar then
        let values ← arguments expression
        return some (← construction id values (← spanFrom place))
  | none => pure ()
  if ← eat .assign then return some (← initializer expression ty) else return none

/-- Declarations of variables of one type, without the semicolon. -/
def declarations : Compile (List StmtId) := do
  let typeSpan ← span
  let base ← parseType
  if base.isVoid then failAt .voidParameter typeSpan
  loop (fun collected => do
    let (name, place) ← expectName .noVariable
    let (ty, limits) ← declaredType base
    let initial ← initialValue ty place
    let slot ← declareVariable name ty place
    let collected := collected ++ [← addStmt (.declare slot limits initial) (← spanFrom place)]
    if ← eat .comma then return .again collected else return .done collected) []

/--
Whether a declaration starts here: a type keyword, or a class name in front of
a name or a bracket.
-/
def atDeclaration : Compile Bool := do
  match (← current).kind with
  | .symbol symbol => return symbol.isTypeKeyword
  | .identifier =>
      match ← nextKind with
      | .identifier | .symbol .openBracket => atType
      | _ => return false
  | _ => return false

/-- A declaration as a statement; several declarations make a block. -/
def declarationStatement : Compile StmtId := do
  let start ← span
  let collected ← declarations
  expectSemicolon
  match collected with
  | [single] => return single
  | several => addStmt (.block several) (← spanFrom start)

/-- An expression as a statement. -/
def expressionStatement : Compile StmtId := do
  let value ← expression
  expectSemicolon
  addStmt (.expression value) (← spanFrom (← spanOf value))

/-! ## Blocks and branches -/

/-- The statements of a block up to its closing brace, which is consumed. -/
def blockBody (nested : Compile StmtId) : Compile (List StmtId) :=
  loop (fun collected => do
    if ← eat .closeBlock then return .done collected
    if ← atEnd then fail .closeBlock
    return .again (collected ++ [← nested])) []

/-- The statements of a block in braces with names of its own. -/
def scopedBlock (nested : Compile StmtId) : Compile (List StmtId) := do
  expect .openBlock .openBlock
  modifyScope Scope.pushBlock
  let statements ← blockBody nested
  modifyScope Scope.popBlock
  return statements

/-- A block with names of its own as a statement. -/
def block (nested : Compile StmtId) : Compile StmtId := do
  let start ← span
  let statements ← scopedBlock nested
  addStmt (.block statements) (← spanFrom start)

/-- Demand that an expression is a truth value. -/
def checkBoolean (condition : ExprId) : Compile Unit := do
  if (← typeOf condition) != .boolean then failAt .notBoolean (← spanOf condition)

/-- A condition in parentheses. -/
def condition : Compile ExprId := do
  expect .openPar .openPar
  let value ← expression
  checkBoolean value
  expect .closePar .closePar
  return value

/-- A branch. -/
def branch (nested : Compile StmtId) : Compile StmtId := do
  let start ← span
  advance
  let test ← condition
  let whenTrue ← nested
  let whenFalse ← if ← eat .elseKw then some <$> nested else pure none
  addStmt (.branch test whenTrue whenFalse) (← spanFrom start)

/-! ## Loops -/

/-- The body of a loop. -/
def loopBody (nested : Compile StmtId) (label : Option String) : Compile StmtId := do
  modifyScope fun scope => scope.pushLoop label
  let body ← nested
  modifyScope Scope.popBreakable
  return body

/-- A loop with its test in front. -/
def whileLoop (nested : Compile StmtId) (label : Option String) : Compile StmtId := do
  let start ← span
  advance
  let test ← condition
  let body ← loopBody nested label
  addStmt (.whileLoop label test body) (← spanFrom start)

/-- A loop with its test at the end. -/
def doLoop (nested : Compile StmtId) (label : Option String) : Compile StmtId := do
  let start ← span
  advance
  let body ← loopBody nested label
  expect .whileKw .noWhile
  let test ← condition
  expectSemicolon
  addStmt (.doLoop label body test) (← spanFrom start)

/-- Expressions between commas. -/
def expressionList : Compile (List ExprId) :=
  loop (fun collected => do
    let collected := collected ++ [← expression]
    if ← eat .comma then return .again collected else return .done collected) []

/-- The statements at the start of a counting loop. -/
def loopStart : Compile (List StmtId) := do
  if ← at' .semicolon then return []
  if ← atDeclaration then declarations
  else
    (← expressionList).mapM fun value => do
      addStmt (.expression value) (← spanOf value)

/-- A loop with a start, a test and steps. -/
def forLoop (nested : Compile StmtId) (label : Option String) : Compile StmtId := do
  let start ← span
  advance
  expect .openPar .openPar
  modifyScope Scope.pushBlock
  let initial ← loopStart
  expectSemicolon
  let test ←
    if ← at' .semicolon then pure none
    else
      let value ← expression
      checkBoolean value
      pure (some value)
  expectSemicolon
  let steps ← if ← at' .closePar then pure [] else expressionList
  expect .closePar .closePar
  let body ← loopBody nested label
  let statement ← addStmt (.forLoop label initial test steps body) (← spanFrom start)
  modifyScope Scope.popBlock
  return statement

/-- A loop with a number of rounds. -/
def repeatLoop (nested : Compile StmtId) (label : Option String) : Compile StmtId := do
  let start ← span
  advance
  expect .openPar .openPar
  if ← atAny [.closePar, .semicolon] then fail .badNumber
  let count ← expression
  if !(← typeOf count).isNumeric then failAt .badType1 (← spanOf count)
  expect .closePar .closePar
  let body ← loopBody nested label
  addStmt (.repeatLoop label count body) (← spanFrom start)

/-- A loop with a label in front. -/
def labeledLoop (nested : Compile StmtId) : Compile StmtId := do
  let label := some (← text)
  advance
  advance
  match ← symbol? with
  | some .whileKw => whileLoop nested label
  | some .doKw => doLoop nested label
  | some .forKw => forLoop nested label
  | some .repeatKw => repeatLoop nested label
  | _ => fail .labelPlacement

/-! ## Switches, handlers and jumps -/

/-- The value of a label of a switch. -/
def caseValue : Compile Int64 := do
  let value ← expression
  let place ← spanOf value
  if !(← typeOf value).isInteger then failAt .badType1 place
  requireAt .badNumber place (← constantValue value .badNumber).int?

/-- The labels and statements of a switch up to its closing brace. -/
def switchBody (nested : Compile StmtId) : Compile (List SwitchCase × List StmtId) :=
  let addCase (label : Span) (value : Option Int64) (cases : List SwitchCase)
      (body : List StmtId) :
      Compile (Turn (List SwitchCase × List StmtId) (List SwitchCase × List StmtId)) := do
    expect .colon .noColon
    if cases.any fun entry => entry.value == value then failAt .redefinedCase label
    return .again (cases ++ [⟨value, Word.ofNat body.length⟩], body)
  loop (fun (cases, body) => do
    if ← eat .closeBlock then return .done (cases, body)
    if ← atEnd then fail .closeBlock
    let label ← span
    if ← eat .caseKw then addCase label (some (← caseValue)) cases body
    else if ← eat .defaultKw then addCase label none cases body
    else
      if cases.isEmpty then fail .noCase
      return .again (cases, body ++ [← nested])) ([], [])

/-- A switch. -/
def switchOn (nested : Compile StmtId) : Compile StmtId := do
  let start ← span
  advance
  expect .openPar .openPar
  let value ← expression
  if !(← typeOf value).isInteger then failAt .badType1 (← spanOf value)
  expect .closePar .closePar
  expect .openBlock .openBlock
  modifyScope fun scope => scope.pushSwitch.pushBlock
  let (cases, body) ← switchBody nested
  let statement ← addStmt (.switchOn value cases body) (← spanFrom start)
  modifyScope fun scope => scope.popBlock.popBreakable
  return statement

/-- The kind of a catch clause by the type of its expression. -/
def catchKind? (ty : Ty) : Option CatchKind :=
  if ty = .boolean then some .condition else if ty.isInteger then some .code else none

/-- The catch clauses behind a guarded block. -/
def catchClauses (nested : Compile StmtId) : Compile (List CatchClause) :=
  loop (fun clauses => do
    let start ← span
    if ← eat .catchKw then
      expect .openPar .openPar
      let test ← expression
      let kind ← requireAt .badType1 (← spanOf test) (catchKind? (← typeOf test))
      expect .closePar .closePar
      let place ← spanFrom start
      let body ← block nested
      return .again (clauses ++ [⟨kind, test, body, place⟩])
    else return .done clauses) []

/-- A guarded block with its handlers. -/
def guarded (nested : Compile StmtId) : Compile StmtId := do
  let start ← span
  advance
  let body ← scopedBlock nested
  let clauses ← catchClauses nested
  let final ← if ← eat .finallyKw then some <$> block nested else pure none
  addStmt (.guarded body clauses final) (← spanFrom start)

/-- A thrown exception. -/
def throwStatement : Compile StmtId := do
  let start ← span
  advance
  let code ← expression
  if !(← typeOf code).isInteger then failAt .badType1 (← spanOf code)
  expectSemicolon
  addStmt (.throwCode code) (← spanFrom start)

/-- A return from the function. -/
def returnStatement : Compile StmtId := do
  let start ← span
  advance
  let result := ((← get).scope.resultType?).getD .void
  let value ← if ← at' .semicolon then pure none else some <$> expression
  match value with
  | some value =>
      if result.isVoid then failAt .badType1 (← spanOf value)
      checkAssignable value result
  | none => if !result.isVoid then failAt .badType1 start
  expectSemicolon
  addStmt (.returnWith value) (← spanFrom start)

/-- A jump out of a loop or switch, or to the next round of a loop. -/
def jump (isContinue : Bool) : Compile StmtId := do
  let start ← span
  advance
  let label ←
    if ← atIdentifier then
      let name ← text
      advance
      pure (some name)
    else pure none
  checkAt (← spanFrom start) ((← get).scope.checkJump label isContinue)
  expectSemicolon
  addStmt (if isContinue then .continueTo label else .breakTo label) (← spanFrom start)

/-! ## Statements -/

/-- The statement that a symbol starts. -/
def symbolStatement (nested : Compile StmtId) (symbol : Symbol) : Compile StmtId := do
  match symbol with
  | .openBlock => block nested
  | .ifKw => branch nested
  | .whileKw => whileLoop nested none
  | .doKw => doLoop nested none
  | .forKw => forLoop nested none
  | .repeatKw => repeatLoop nested none
  | .switchKw => switchOn nested
  | .tryKw => guarded nested
  | .throwKw => throwStatement
  | .returnKw => returnStatement
  | .breakKw => jump false
  | .continueKw => jump true
  | .elseKw => fail .elseWithoutIf
  | .caseKw | .defaultKw => fail .caseOut
  | .semicolon =>
      let start ← span
      advance
      addStmt (.block []) start
  | symbol => if symbol.isTypeKeyword then declarationStatement else expressionStatement

/-- The statement at the current token. -/
def statementWith (nested : Compile StmtId) : Compile StmtId := do
  match (← current).kind with
  | .symbol symbol => symbolStatement nested symbol
  | .identifier =>
      if (← nextKind) == .symbol .colon then labeledLoop nested
      else if ← atDeclaration then declarationStatement
      else expressionStatement
  | _ => expressionStatement

/-- A statement whose nested statements go no deeper than a bound. -/
def statementWithin : Nat → Compile StmtId
  | 0 => fail .noExpression
  | bound + 1 => statementWith (statementWithin bound)

/-- A statement; every nested statement starts behind a token of its own. -/
def statement : Compile StmtId := do
  statementWithin ((← tokenCount) + 1)

/-- The body of a function, which shares the names of its parameters. -/
def functionBlock : Compile StmtId := do
  let start ← span
  expect .openBlock .openBlock
  let statements ← blockBody statement
  addStmt (.block statements) (← spanFrom start)

end Compile

end BotScript
