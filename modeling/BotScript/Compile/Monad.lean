import BotScript.Compile.Constant
import BotScript.Compile.Conversion
import BotScript.Compile.Scope
import BotScript.Diagnostic
import BotScript.Host.Registry
import BotScript.Token.Scan

namespace BotScript

/-!
# Compilation steps

A compilation step reads the token list at a position, adds nodes to the tree
and tracks the scope.  The first error ends the compilation.
-/

/-- What stays the same during a compilation. -/
structure CompileContext where
  tokens : Array Token
  registry : Registry

/-- What changes during a compilation. -/
structure CompileState where
  position : Nat := 0
  tree : Tree := {}
  scope : Scope := {}
  deriving Repr, DecidableEq, Inhabited

/-- A compilation step. -/
abbrev Compile := ReaderT CompileContext (StateT CompileState (Except CompileError))

namespace Compile

/-! ## The token at hand -/

/-- The token that stands in for positions outside the list. -/
def noToken : Token :=
  ⟨.endOfText, "", Span.none, ""⟩

/-- The number of tokens, which bounds every loop over tokens. -/
def tokenCount : Compile Nat := do
  return (← read).tokens.size

/-- The token at a position. -/
def tokenAt (position : Nat) : Compile Token := do
  return ((← read).tokens[position]?).getD noToken

/-- The current token. -/
def current : Compile Token := do
  tokenAt (← get).position

/-- The keyword or operator at hand. -/
def symbol? : Compile (Option Symbol) := do
  return (← current).symbol?

/-- The span of the current token. -/
def span : Compile Span := do
  return (← current).span

/-- The text of the current token. -/
def text : Compile String := do
  return (← current).text

/-- The span of the token before the current one. -/
def previousSpan : Compile Span := do
  match (← get).position with
  | 0 => return Span.none
  | position + 1 => return (← tokenAt position).span

/-- The span from a start to the end of the last consumed token. -/
def spanFrom (start : Span) : Compile Span := do
  return start.merge (← previousSpan)

/-- Whether all tokens are consumed. -/
def atEnd : Compile Bool := do
  return (← current).kind == .endOfText

/-- Whether the current token is a symbol. -/
def at' (symbol : Symbol) : Compile Bool := do
  return (← symbol?) == some symbol

/-- Whether the current token is one of several symbols. -/
def atAny (symbols : List Symbol) : Compile Bool := do
  match ← symbol? with
  | some symbol => return symbols.contains symbol
  | none => return false

/-- Whether the current token is an identifier. -/
def atIdentifier : Compile Bool := do
  return (← current).kind == .identifier

/-- The kind of the token behind the current one; the end stays the end. -/
def nextKind : Compile TokenKind := do
  let position := (← get).position
  let count ← tokenCount
  return (← tokenAt (if position + 1 < count then position + 1 else position)).kind

/-- Move to the next token; the end stays the end. -/
def advance : Compile Unit := do
  let count ← tokenCount
  modify fun state =>
    if state.position + 1 < count then { state with position := state.position + 1 } else state

/-- Move to a position. -/
def moveTo (position : Nat) : Compile Unit :=
  modify fun state => { state with position }

/-! ## Errors -/

/-- Fail with an error at a span. -/
def failAt {α : Type} (code : ErrorCode) (place : Span) : Compile α :=
  throw ⟨code, place⟩

/-- Fail with an error at the current token. -/
def fail {α : Type} (code : ErrorCode) : Compile α := do
  failAt code (← span)

/-- The result of a check, with its error at a span. -/
def checkAt {α : Type} (place : Span) : Except ErrorCode α → Compile α
  | .ok value => pure value
  | .error code => failAt code place

/-- A value that must be there, or else an error at a span. -/
def requireAt {α : Type} (code : ErrorCode) (place : Span) : Option α → Compile α
  | some value => pure value
  | none => failAt code place

/-! ## Consuming tokens -/

/-- Consume a symbol if it is the current token. -/
def eat (symbol : Symbol) : Compile Bool := do
  if ← at' symbol then
    advance
    return true
  else return false

/-- Consume one of several symbols. -/
def eatAny? (symbols : List Symbol) : Compile (Option Symbol) := do
  match ← symbol? with
  | some symbol =>
      if symbols.contains symbol then
        advance
        return some symbol
      else return none
  | none => return none

/-- Consume a symbol, or fail with an error. -/
def expect (symbol : Symbol) (code : ErrorCode) : Compile Unit := do
  if !(← eat symbol) then fail code

/-- Consume an identifier, or fail with an error. -/
def expectIdentifier (code : ErrorCode) : Compile (String × Span) := do
  let token ← current
  if token.kind == .identifier then
    advance
    return (token.text, token.span)
  else fail code

/-- Consume a name that is being declared; keywords and constants are reserved. -/
def expectName (code : ErrorCode) : Compile (String × Span) := do
  match (← current).kind with
  | .constant _ => fail .reservedWord
  | .symbol symbol =>
      if Symbol.keywords.contains symbol then fail .reservedWord else expectIdentifier code
  | _ => expectIdentifier code

/-- Consume the semicolon that ends a statement. -/
def expectSemicolon : Compile Unit :=
  expect .semicolon .noTerminator

/-! ## Loops over tokens -/

/-- Whether a loop goes on with a state or ends with a result. -/
inductive Turn (σ α : Type) where
  | again (state : σ)
  | done (result : α)

/-- Repeat a step at most a number of times. -/
def loopWithin {σ α : Type} (step : σ → Compile (Turn σ α)) : Nat → σ → Compile α
  | 0, _ => fail .noExpression
  | bound + 1, state => do
      match ← step state with
      | .again state => loopWithin step bound state
      | .done result => return result

/-- Repeat a step that consumes a token whenever it goes on. -/
def loop {σ α : Type} (step : σ → Compile (Turn σ α)) (state : σ) : Compile α := do
  loopWithin step ((← tokenCount) + 1) state

/-- Skip a group in braces that starts at the current token. -/
def skipBlock : Compile Unit :=
  loop (fun (depth : Nat) => do
    match ← symbol? with
    | some .openBlock =>
        advance
        return .again (depth + 1)
    | some .closeBlock =>
        advance
        if depth ≤ 1 then return .done () else return .again (depth - 1)
    | _ =>
        if ← atEnd then fail .closeBlock
        advance
        return .again depth) 0

/-! ## The tree and the scope -/

/-- The tree built so far. -/
def tree : Compile Tree := do
  return (← get).tree

/-- Change the tree. -/
def setTree (tree : Tree) : Compile Unit :=
  modify fun state => { state with tree }

/-- Change the scope. -/
def modifyScope (change : Scope → Scope) : Compile Unit :=
  modify fun state => { state with scope := change state.scope }

/-- Add an expression. -/
def addExpr (kind : ExprKind) (ty : Ty) (place : Span) : Compile ExprId := do
  let (id, tree) := (← tree).addExpr ⟨kind, ty, place⟩
  setTree tree
  return id

/-- Add a statement. -/
def addStmt (kind : StmtKind) (place : Span) : Compile StmtId := do
  let (id, tree) := (← tree).addStmt ⟨kind, place⟩
  setTree tree
  return id

/-- The static type of an expression. -/
def typeOf (id : ExprId) : Compile Ty := do
  return ((← tree).expr id).ty

/-- The span of an expression. -/
def spanOf (id : ExprId) : Compile Span := do
  return ((← tree).expr id).span

/-- The value of a constant expression, or an error if it is not constant. -/
def constantValue (id : ExprId) (code : ErrorCode) : Compile Value := do
  let place ← spanOf id
  requireAt code place (← checkAt place ((← tree).constant? id))

/-- Demand that the value of an expression can be stored in a place of a type. -/
def checkAssignable (id : ExprId) (target : Ty) : Compile Unit := do
  if !((← tree).isAssignable (← typeOf id) target) then failAt .badType1 (← spanOf id)

/-! ## Types and classes -/

/-- The number of dimensions of an array type. -/
def arrayDepth : Ty → Nat
  | .array element => arrayDepth element + 1
  | _ => 0

/-- The type that a keyword names. -/
def keywordType? : Symbol → Option Ty
  | .intKw => some .int
  | .floatKw => some .float
  | .booleanKw | .boolKw => some .boolean
  | .stringKw => some .string
  | .voidKw => some .void
  | .byteKw => some .byte
  | .shortKw => some .short
  | .charKw => some .char
  | .longKw => some .long
  | .doubleKw => some .double
  | _ => none

/-- The class definition that stands for a host class. -/
def hostDefinition (host : HostClass) (parent : Option ClassId) : ClassDef where
  name := host.name
  parent := parent
  fields := host.fields.map fun field =>
    ⟨field.name, field.ty, field.visibility, none, List.replicate (arrayDepth field.ty) none,
      Span.none⟩
  methods := host.methods.map fun method =>
    ⟨method.name, .native method.native, .publicAccess, none⟩
  isHost := true
  span := Span.none

/--
The class with a name; host classes are imported with their ancestors on first
use.  The bound limits the number of ancestors.
-/
def importClass (registry : Registry) : Nat → Tree → String → Option (ClassId × Tree)
  | 0, _, _ => none
  | bound + 1, tree, name =>
      match tree.classNamed? name with
      | some id => some (id, tree)
      | none =>
          match registry.classNamed? name with
          | none => none
          | some host =>
              let add (parent : Option ClassId) (tree : Tree) : ClassId × Tree :=
                (Id.ofIndex tree.classes.size,
                  { tree with classes := tree.classes.push (hostDefinition host parent) })
              match host.parent with
              | none => some (add none tree)
              | some parent =>
                  (importClass registry bound tree parent).map fun (id, tree) => add (some id) tree

/-- The class with a name, imported from the host if need be. -/
def resolveClass? (name : String) : Compile (Option ClassId) := do
  let registry := (← read).registry
  match importClass registry (registry.classes.length + 1) (← tree) name with
  | some (id, tree) =>
      setTree tree
      return some id
  | none => return none

/-- Whether a type starts at the current token. -/
def atType : Compile Bool := do
  match (← current).kind with
  | .symbol symbol => return symbol.isTypeKeyword
  | .identifier => return (← resolveClass? (← text)).isSome
  | _ => return false

/-- Consume the empty brackets behind a type. -/
def arraySuffixes (ty : Ty) : Compile Ty :=
  loop (fun ty => do
    if ← eat .openBracket then
      expect .closeBracket .closeIndex
      return .again (.array ty)
    else return .done ty) ty

/-- Consume a type: a keyword or a class name, and any number of empty brackets. -/
def parseType : Compile Ty := do
  let base ←
    match (← current).kind with
    | .symbol symbol => requireAt .noType (← span) (keywordType? symbol)
    | .identifier =>
        let id ← requireAt .noType (← span) (← resolveClass? (← text))
        pure (.object ((← tree).classDef id).name)
    | _ => fail .noType
  advance
  arraySuffixes base

/-- The class of values of a class type. -/
def classOf? (ty : Ty) : Compile (Option ClassId) := do
  match ty with
  | .object name => return (← tree).classNamed? name
  | _ => return none

/-- Demand that the current class may use a member that a class declares. -/
def checkAccess (declaring : ClassId) (visibility : Visibility) (place : Span) : Compile Unit := do
  let state ← get
  if !(state.tree.admits state.scope.owner declaring visibility) then
    failAt .privateMember place

/-- One more modifier. -/
def addModifier (modifiers : Modifiers) : Symbol → Modifiers
  | .publicKw => { modifiers with isPublic := true }
  | .privateKw => { modifiers with isPrivate := true }
  | .protectedKw => { modifiers with isProtected := true }
  | .staticKw => { modifiers with isStatic := true }
  | .externKw => { modifiers with isExternal := true }
  | _ => { modifiers with isSynchronized := true }

/-- Consume the modifiers in front of a declaration. -/
def parseModifiers : Compile Modifiers :=
  loop (fun modifiers => do
    match ← symbol? with
    | some symbol =>
        if symbol.isModifier then
          advance
          return .again (addModifier modifiers symbol)
        else return .done modifiers
    | none => return .done modifiers) {}

end Compile

end BotScript
