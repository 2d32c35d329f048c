import BotScript.ErrorCode
import BotScript.Tree.Item

namespace BotScript

/-!
# Scopes

What is visible while a program is compiled: the enclosing class, whether there
is a receiver, and inside a function its result type, its variables by block,
and the loops and switches that can be left.
-/

/-- A statement that can be left by a jump. -/
structure Breakable where
  label : Option String
  isLoop : Bool
  deriving Repr, DecidableEq, Inhabited

/-- The scope of one function; the innermost block and the innermost loop come first. -/
structure FunctionScope where
  result : Ty
  locals : Array LocalDef
  blocks : List (List (String × LocalSlot))
  breakables : List Breakable
  deriving Repr, DecidableEq, Inhabited

/-- What is visible at a point of the program text. -/
structure Scope where
  owner : Option ClassId := none
  hasThis : Bool := false
  function : Option FunctionScope := none
  deriving Repr, DecidableEq, Inhabited

namespace Scope

/-- Begin a function body with one open block. -/
def enterFunction (result : Ty) (owner : Option ClassId) (hasThis : Bool) : Scope :=
  ⟨owner, hasThis, some ⟨result, #[], [[]], []⟩⟩

/-- The variables of the function that ends. -/
def locals (scope : Scope) : List LocalDef :=
  match scope.function with
  | some function => function.locals.toList
  | none => []

/-- End a function body. -/
def leaveFunction (_scope : Scope) : Scope :=
  ⟨none, false, none⟩

/-- Begin the initializer of a field or the default of a parameter, where there are no variables. -/
def enterInitializer (owner : Option ClassId) (hasThis : Bool) : Scope :=
  ⟨owner, hasThis, none⟩

/-- End an initializer. -/
def leaveInitializer (scope : Scope) : Scope :=
  { scope with owner := none, hasThis := false }

/-- The result type of the function being compiled. -/
def resultType? (scope : Scope) : Option Ty :=
  scope.function.map (·.result)

/-- Change the function scope, if there is one. -/
def inFunction (scope : Scope) (change : FunctionScope → FunctionScope) : Scope :=
  { scope with function := scope.function.map change }

/-- Open a block. -/
def pushBlock (scope : Scope) : Scope :=
  scope.inFunction fun function => { function with blocks := [] :: function.blocks }

/-- Close the innermost block. -/
def popBlock (scope : Scope) : Scope :=
  scope.inFunction fun function => { function with blocks := function.blocks.tail }

/-- Declare a variable in the innermost block, which must not have its name yet. -/
def declare (scope : Scope) (name : String) (ty : Ty) : Except ErrorCode (LocalSlot × Scope) :=
  match scope.function with
  | none => .error .noVariable
  | some function =>
      match function.blocks with
      | [] => .error .noVariable
      | block :: outer =>
          if block.any fun entry => entry.1 == name then .error .redefinedVariable
          else
            let slot : LocalSlot := Id.ofIndex function.locals.size
            .ok (slot,
              { scope with
                function := some
                  { function with
                    locals := function.locals.push ⟨name, ty⟩
                    blocks := ((name, slot) :: block) :: outer } })

/-- The slot of the innermost visible variable with a name. -/
def slotIn? (name : String) : List (List (String × LocalSlot)) → Option LocalSlot
  | [] => none
  | block :: outer =>
      match block.lookup name with
      | some slot => some slot
      | none => slotIn? name outer

/-- The innermost visible variable with a name, with its type. -/
def lookup? (scope : Scope) (name : String) : Option (LocalSlot × Ty) :=
  match scope.function with
  | none => none
  | some function =>
      match slotIn? name function.blocks with
      | none => none
      | some slot => (function.locals[slot.index]?).map fun entry => (slot, entry.ty)

/-- Enter a loop. -/
def pushLoop (scope : Scope) (label : Option String) : Scope :=
  scope.inFunction fun function =>
    { function with breakables := ⟨label, true⟩ :: function.breakables }

/-- Enter a switch. -/
def pushSwitch (scope : Scope) : Scope :=
  scope.inFunction fun function =>
    { function with breakables := ⟨none, false⟩ :: function.breakables }

/-- Leave the innermost loop or switch. -/
def popBreakable (scope : Scope) : Scope :=
  scope.inFunction fun function => { function with breakables := function.breakables.tail }

/-- Check that a jump has a target: a loop with its label, or any suitable statement. -/
def checkJump (scope : Scope) (label : Option String) (isContinue : Bool) : Except ErrorCode Unit :=
  let breakables := (scope.function.map (·.breakables)).getD []
  match label with
  | some name =>
      if breakables.any fun entry => entry.label == some name then .ok ()
      else .error .undefinedLabel
  | none =>
      if breakables.any fun entry => entry.isLoop || !isContinue then .ok ()
      else .error .breakOutside

end Scope

end BotScript
