import BotScript.Compile.Returns
import BotScript.Compile.Statement

namespace BotScript

/-!
# Compilation of programs

Three passes over the tokens.  The first one finds all classes and functions and
skips their bodies, so that declarations may come in any order.  The second one
declares parents, fields and signatures and builds the dispatch tables.  The
third one compiles the initializers of fields and the bodies of functions.
-/

namespace Compile

/-- A class found by the first pass: its parent and the position of its opening brace. -/
structure ClassItem where
  id : ClassId
  parent : Option (String × Span)
  body : Nat
  deriving Repr, DecidableEq, Inhabited

/-- The classes of a program and the positions at which its functions start. -/
structure Outline where
  classes : List ClassItem := []
  functions : List Nat := []
  deriving Repr, DecidableEq, Inhabited

/-- A function whose body is not compiled yet. -/
structure PendingBody where
  function : FuncId
  body : Nat
  deriving Repr, DecidableEq, Inhabited

/-- A field whose initializer is not compiled yet. -/
structure PendingInitial where
  owner : ClassId
  isStatic : Bool
  index : Nat
  position : Nat
  deriving Repr, DecidableEq, Inhabited

/-- What the second pass leaves to the third one. -/
structure Pending where
  bodies : List PendingBody := []
  initials : List PendingInitial := []
  deriving Repr, DecidableEq, Inhabited

/-! ## First pass -/

/-- Consume a class behind its keyword; its body is skipped. -/
def scanClass : Compile ClassItem := do
  let (name, place) ← expectName .noClassName
  let registry := (← read).registry
  if ((← tree).classNamed? name).isSome || (registry.classNamed? name).isSome then
    failAt .redefinedClass place
  let parent ← if ← eat .extendsKw then some <$> expectIdentifier .noClassName else pure none
  if !(← at' .openBlock) then fail .openBlock
  let body := (← get).position
  skipBlock
  let tree ← tree
  setTree { tree with classes := tree.classes.push { name, span := place } }
  return ⟨Id.ofIndex tree.classes.size, parent, body⟩

/-- Skip to the end of a function body; false if there is none. -/
def skipToBody : Compile Bool :=
  loop (fun (_ : Unit) => do
    match ← symbol? with
    | some .openBlock =>
        skipBlock
        return .done true
    | some .semicolon | some .closeBlock => return .done false
    | _ =>
        if ← atEnd then return .done false
        advance
        return .again ()) ()

/--
Find the classes and functions of the program.  A malformed item ends the
search; the second pass reports it.
-/
def scan : Compile Outline :=
  loop (fun (outline : Outline) => do
    if ← atEnd then return .done outline
    if ← at' .closeBlock then fail .noEnd
    let start := (← get).position
    let _ ← parseModifiers
    if ← eat .classKw then
      let item ← scanClass
      return .again { outline with classes := outline.classes ++ [item] }
    else
      let outline := { outline with functions := outline.functions ++ [start] }
      if ← skipToBody then return .again outline else return .done outline) {}

/-! ## Second pass -/

/-- Whether following the parents of a class leads back to it or never ends. -/
def inheritsItself (tree : Tree) (id : ClassId) : Nat → Option ClassId → Bool
  | _, none => false
  | 0, some _ => true
  | bound + 1, some ancestor =>
      ancestor == id || inheritsItself tree id bound (tree.classDef ancestor).parent

/-- Change the definition of a class. -/
def modifyClass (id : ClassId) (change : ClassDef → ClassDef) : Compile Unit := do
  let tree ← tree
  setTree { tree with classes := tree.classes.modify id.index change }

/-- Resolve the parents of all classes and refuse circles. -/
def resolveParents (items : List ClassItem) : Compile Unit := do
  items.forM fun item => do
    match item.parent with
    | some (name, place) =>
        let parent ← requireAt .undefinedClass place (← resolveClass? name)
        modifyClass item.id fun entry => { entry with parent := some parent }
    | none => pure ()
  let tree ← tree
  items.forM fun item => do
    if inheritsItself tree item.id (tree.classes.size + 2) (tree.classDef item.id).parent then
      failAt .undefinedClass ((item.parent.map (·.2)).getD Span.none)

/-- Skip the initializer of a field up to the comma or semicolon that ends it. -/
def skipInitializer : Compile Unit :=
  loop (fun (depth : Nat) => do
    match ← symbol? with
    | some .openPar | some .openBracket | some .openBlock =>
        advance
        return .again (depth + 1)
    | some .closePar | some .closeBracket | some .closeBlock =>
        if depth = 0 then return .done ()
        advance
        return .again (depth - 1)
    | some .comma | some .semicolon =>
        if depth = 0 then return .done ()
        advance
        return .again depth
    | _ =>
        if ← atEnd then fail .noTerminator
        advance
        return .again depth) 0

/-- The literal that holds a constant value. -/
def literalOf? : Value → Option LiteralValue
  | .bool value => some (.bool value)
  | .int value => some (.int value)
  | .float value => some (.float value)
  | .str value => some (.str value)
  | .null => some .null
  | .nan => some .nan
  | .void | .array _ | .object _ => none

/-- The default of a parameter, as a literal of the type of the parameter. -/
def parameterDefault (ty : Ty) : Compile ExprId := do
  if ← atAny [.comma, .closePar] then fail .noExpression
  modifyScope fun _ => Scope.enterInitializer none false
  let value ← expression
  modifyScope Scope.leaveInitializer
  let place ← spanOf value
  let source ← typeOf value
  if !((← tree).isAssignable source ty) then failAt .badType1 place
  let constant ← constantValue value .noExpression
  let converted ← checkAt place (Tree.convertConstant constant source ty)
  let literal ← requireAt .noExpression place (literalOf? converted)
  addExpr (.literal literal) ty place

/-- The parameters behind an opening parenthesis. -/
def parameters : Compile (List Param) := do
  if ← eat .closePar then return []
  loop (fun (params : List Param) => do
    let typeSpan ← span
    let base ← parseType
    if base.isVoid then failAt .voidParameter typeSpan
    let (name, place) ← expectName .noVariable
    let ty ← arraySuffixes base
    if params.any fun param => param.name == name then failAt .redefinedVariable place
    let defaultValue ←
      if ← eat .assign then some <$> parameterDefault ty
      else
        if (params.getLast?.bind (·.defaultValue)).isSome then failAt .defaultValue place
        pure none
    let params := params ++ [⟨name, ty, Id.ofIndex params.length, defaultValue⟩]
    if ← eat .closePar then return .done params
    expect .comma .closePar
    return .again params) []

/-- Declare a function or method whose parameter list starts here. -/
def declareSignature
    (modifiers : Modifiers) (result : Ty) (owner : Option ClassId) (name : String) (place : Span) :
    Compile FuncId := do
  expect .openPar .openPar
  let params ← parameters
  let function : FunctionDef :=
    ⟨name, owner, params, result, modifiers, none, [], place⟩
  let key := function.signatureKey
  let current ← tree
  if current.functions.any fun other => other.owner == owner && other.signatureKey == key then
    failAt .redefinedFunction place
  let id : FuncId := Id.ofIndex current.functions.size
  setTree { current with functions := current.functions.push function }
  match owner with
  | some owner =>
      let isConstructor := (current.classDef owner).name == name
      let slot ←
        if isConstructor then pure none
        else
          let (slot, tree) := (← tree).internMethodKey key
          setTree tree
          pure (some slot)
      modifyClass owner fun entry =>
        { entry with
          methods := entry.methods ++ [⟨name, .user id, modifiers.visibility, slot⟩] }
  | none => pure ()
  return id

/-- Skip the body of a function, whose position is the result. -/
def skipBody : Compile Nat := do
  if !(← at' .openBlock) then fail .openBlock
  let position := (← get).position
  skipBlock
  return position

/-- The number of fields, instance or static, that a class has so far. -/
def fieldCount (entry : ClassDef) (isStatic : Bool) : Nat :=
  if isStatic then entry.statics.length else entry.fields.length

/-- Declare fields of one type, of which the first name is consumed. -/
def declareFields
    (owner : ClassId) (modifiers : Modifiers) (base : Ty) (first : String × Span) :
    Compile (List PendingInitial) := do
  if base.isVoid then failAt .noType first.2
  let isStatic := modifiers.isStatic
  let initials ←
    loop (fun ((name, place), (initials : List PendingInitial)) => do
      let (ty, limits) ← declaredType base
      let entry := (← tree).classDef owner
      if (entry.fields ++ entry.statics).any fun field => field.name == name then
        failAt .redefinedVariable place
      let field : FieldDef := ⟨name, ty, modifiers.visibility, none, limits, place⟩
      let index := fieldCount entry isStatic
      modifyClass owner fun entry =>
        if isStatic then { entry with statics := entry.statics ++ [field] }
        else { entry with fields := entry.fields ++ [field] }
      let initials ←
        if ← eat .assign then
          let position := (← get).position
          skipInitializer
          pure (initials ++ [⟨owner, isStatic, index, position⟩])
        else pure initials
      if ← eat .comma then
        return .again (← expectName .noVariable, initials)
      else return .done initials) (first, [])
  expectSemicolon
  return initials

/-- Declare the members of a class. -/
def declareMembers (item : ClassItem) (pending : Pending) : Compile Pending := do
  let className := ((← tree).classDef item.id).name
  moveTo item.body
  advance
  loop (fun (pending : Pending) => do
    if ← eat .closeBlock then return .done pending
    if ← atEnd then fail .closeBlock
    let modifiers ← parseModifiers
    -- The name of the class in front of a parenthesis is a constructor without a type.
    let isConstructor := (← text) == className && (← nextKind) == .symbol .openPar
    let ty ← if isConstructor then pure .void else parseType
    let (name, place) ← expectName .noVariable
    if ← at' .openPar then
      let function ← declareSignature modifiers ty (some item.id) name place
      let body ← skipBody
      return .again { pending with bodies := pending.bodies ++ [⟨function, body⟩] }
    else
      let initials ← declareFields item.id modifiers ty (name, place)
      return .again { pending with initials := pending.initials ++ initials }) pending

/-- Declare the function that starts at a position, which may belong to a class. -/
def declareFunction (start : Nat) : Compile PendingBody := do
  moveTo start
  let modifiers ← parseModifiers
  let result ← parseType
  let (first, firstSpan) ← expectName .noFunction
  let (owner, name, place) ←
    if ← eat .doubleColon then
      let current ← tree
      let owner ← requireAt .undefinedClass firstSpan
        ((current.classNamed? first).filter fun id => !(current.classDef id).isHost)
      let (name, place) ← expectName .noFunction
      pure (some owner, name, place)
    else pure (none, first, firstSpan)
  if !(← at' .openPar) then fail .openPar
  let function ← declareSignature modifiers result owner name place
  return ⟨function, ← skipBody⟩

/-- A dispatch table, ordered by slot, with one entry added or replaced. -/
def insertSlot (slot : MethodSlot) (function : FuncId) :
    List (MethodSlot × FuncId) → List (MethodSlot × FuncId)
  | [] => [(slot, function)]
  | entry :: others =>
      if entry.1 == slot then (slot, function) :: others
      else if slot.index < entry.1.index then (slot, function) :: entry :: others
      else entry :: insertSlot slot function others

/-- A dispatch table with the methods of a class added. -/
def addMethods (table : List (MethodSlot × FuncId)) (entry : ClassDef) :
    List (MethodSlot × FuncId) :=
  entry.methods.foldl (fun table method =>
    match method.implementation, method.slot with
    | .user function, some slot => insertSlot slot function table
    | _, _ => table) table

/-- The most derived method of a class for every slot of its chain. -/
def dispatchTable (tree : Tree) (id : ClassId) : List (MethodSlot × FuncId) :=
  (tree.classChain id).reverse.foldl (fun table owner => addMethods table (tree.classDef owner)) []

/-- The tree with the dispatch tables of all its classes. -/
def withDispatchTables (tree : Tree) : Tree :=
  { tree with
    classes := tree.classes.mapIdx fun index entry =>
      { entry with dispatch := dispatchTable tree (Id.ofIndex index) } }

/-! ## Third pass -/

/-- The field that waits for an initializer. -/
def pendingField (tree : Tree) (initial : PendingInitial) : FieldDef :=
  let entry := tree.classDef initial.owner
  ((if initial.isStatic then entry.statics else entry.fields)[initial.index]?).getD default

/-- Compile the initializer of a field. -/
def compileInitial (initial : PendingInitial) : Compile Unit := do
  let field := pendingField (← tree) initial
  moveTo initial.position
  modifyScope fun _ => Scope.enterInitializer (some initial.owner) (!initial.isStatic)
  let value ← initializer expression field.ty
  modifyScope Scope.leaveInitializer
  if !(← atAny [.comma, .semicolon]) then fail .noTerminator
  let update (fields : List FieldDef) : List FieldDef :=
    fields.modify initial.index fun field => { field with initial := some value }
  modifyClass initial.owner fun entry =>
    if initial.isStatic then { entry with statics := update entry.statics }
    else { entry with fields := update entry.fields }

/-- Compile the body of a function. -/
def compileBody (pending : PendingBody) : Compile Unit := do
  let function := (← tree).function pending.function
  modifyScope fun _ =>
    Scope.enterFunction function.result function.owner function.owner.isSome
  function.params.forM fun param => do
    let _ ← declareVariable param.name param.ty function.span
  moveTo pending.body
  let body ← functionBlock
  let locals := (← get).scope.locals
  modifyScope Scope.leaveFunction
  let current ← tree
  if !function.result.isVoid && !current.alwaysLeaves body then
    failAt .noReturn function.span
  setTree
    { current with
      functions := current.functions.modify pending.function.index fun function =>
        { function with body := some body, locals } }

/-- Compile a whole program. -/
def program : Compile Tree := do
  let outline ← scan
  resolveParents outline.classes
  let pending ← outline.classes.foldlM (fun pending item => declareMembers item pending) {}
  let bodies ← outline.functions.mapM declareFunction
  setTree (withDispatchTables (← tree))
  pending.initials.forM compileInitial
  (pending.bodies ++ bodies).forM compileBody
  tree

end Compile

/-- The tree of a program text, or its first error. -/
def compile (registry : Registry) (tokens : TokenList) : Except CompileError Tree :=
  ((Compile.program.run ⟨tokens.tokens, registry⟩).run {}).map (·.1)

end BotScript
