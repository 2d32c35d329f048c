import BotScript.Tree.Basic

namespace BotScript

/-!
# Functions and classes of a tree
-/

/-- Who may use a member of a class. -/
inductive Visibility where
  | publicAccess
  | protectedAccess
  | privateAccess
  deriving Repr, DecidableEq, Inhabited

/-- The words written in front of a declaration. -/
structure Modifiers where
  isPublic : Bool := false
  isPrivate : Bool := false
  isProtected : Bool := false
  isStatic : Bool := false
  isExternal : Bool := false
  isSynchronized : Bool := false
  deriving Repr, DecidableEq, Inhabited

/-- The visibility that modifiers select; members are public unless told otherwise. -/
def Modifiers.visibility (modifiers : Modifiers) : Visibility :=
  if modifiers.isPrivate then .privateAccess
  else if modifiers.isProtected then .protectedAccess
  else .publicAccess

/-- A parameter; a default value makes its argument optional. -/
structure Param where
  name : String
  ty : Ty
  slot : LocalSlot
  defaultValue : Option ExprId
  deriving Repr, DecidableEq, Inhabited

/-- A variable of a function. -/
structure LocalDef where
  name : String
  ty : Ty
  deriving Repr, DecidableEq, Inhabited

/-- A function or a method; the body is missing until it is compiled. -/
structure FunctionDef where
  name : String
  owner : Option ClassId
  params : List Param
  result : Ty
  modifiers : Modifiers
  body : Option StmtId
  locals : List LocalDef
  span : Span
  deriving Repr, DecidableEq, Inhabited

namespace FunctionDef

/-- The number of leading parameters without a default value. -/
def requiredParams (function : FunctionDef) : Nat :=
  (function.params.takeWhile fun param => param.defaultValue.isNone).length

/-- The key of a name and its parameter types, such as `area(int,float)`. -/
def keyOf (name : String) (params : List Ty) : String :=
  name ++ "(" ++ ",".intercalate (params.map Ty.text) ++ ")"

/-- The name and parameter types of a function, which tell overloads apart. -/
def signatureKey (function : FunctionDef) : String :=
  keyOf function.name (function.params.map (·.ty))

end FunctionDef

/-- A field of a class or of its instances. -/
structure FieldDef where
  name : String
  ty : Ty
  visibility : Visibility
  initial : Option ExprId
  limits : Limits
  span : Span
  deriving Repr, DecidableEq, Inhabited

/-- A method of a class; methods with a body have a dispatch slot. -/
structure MethodDef where
  name : String
  implementation : MethodImpl
  visibility : Visibility
  slot : Option MethodSlot
  deriving Repr, DecidableEq, Inhabited

/-- A class with its own members and the dispatch table of its whole chain. -/
structure ClassDef where
  name : String
  parent : Option ClassId := none
  fields : List FieldDef := []
  statics : List FieldDef := []
  methods : List MethodDef := []
  dispatch : List (MethodSlot × FuncId) := []
  isHost : Bool := false
  span : Span
  deriving Repr, DecidableEq, Inhabited

/-- A compiled program: the tables of its nodes, functions, classes and method keys. -/
structure Tree where
  exprs : Array Expr := #[]
  stmts : Array Stmt := #[]
  functions : Array FunctionDef := #[]
  classes : Array ClassDef := #[]
  methodKeys : Array String := #[]
  deriving Repr, DecidableEq, Inhabited

namespace Tree

/-- The expression with an identifier, if the tree has it. -/
def expr? (tree : Tree) (id : ExprId) : Option Expr :=
  tree.exprs[id.index]?

/-- The statement with an identifier, if the tree has it. -/
def stmt? (tree : Tree) (id : StmtId) : Option Stmt :=
  tree.stmts[id.index]?

/-- The function with an identifier, if the tree has it. -/
def function? (tree : Tree) (id : FuncId) : Option FunctionDef :=
  tree.functions[id.index]?

/-- The class with an identifier, if the tree has it. -/
def class? (tree : Tree) (id : ClassId) : Option ClassDef :=
  tree.classes[id.index]?

/-- The expression with an identifier that the tree has issued. -/
def expr (tree : Tree) (id : ExprId) : Expr :=
  (tree.expr? id).getD default

/-- The statement with an identifier that the tree has issued. -/
def stmt (tree : Tree) (id : StmtId) : Stmt :=
  (tree.stmt? id).getD default

/-- The function with an identifier that the tree has issued. -/
def function (tree : Tree) (id : FuncId) : FunctionDef :=
  (tree.function? id).getD default

/-- The class with an identifier that the tree has issued. -/
def classDef (tree : Tree) (id : ClassId) : ClassDef :=
  (tree.class? id).getD default

/-- Add an expression. -/
def addExpr (tree : Tree) (expression : Expr) : ExprId × Tree :=
  (Id.ofIndex tree.exprs.size, { tree with exprs := tree.exprs.push expression })

/-- Add a statement. -/
def addStmt (tree : Tree) (statement : Stmt) : StmtId × Tree :=
  (Id.ofIndex tree.stmts.size, { tree with stmts := tree.stmts.push statement })

/-- The first class with a name. -/
def classNamed? (tree : Tree) (name : String) : Option ClassId :=
  (tree.classes.findIdx? fun entry => entry.name == name).map Id.ofIndex

/-- The functions outside classes that have a name, in order of declaration. -/
def functionsNamed (tree : Tree) (name : String) : List FuncId :=
  (List.range tree.functions.size).filterMap fun index =>
    match tree.functions[index]? with
    | some function =>
        if function.owner.isNone && function.name == name then some (Id.ofIndex index) else none
    | none => none

/-- A class followed by a bounded number of its ancestors. -/
def chainWithin (tree : Tree) : Nat → ClassId → List ClassId
  | 0, id => [id]
  | bound + 1, id =>
      match (tree.classDef id).parent with
      | some parent => id :: tree.chainWithin bound parent
      | none => [id]

/-- A class followed by its ancestors; no chain is longer than the table of classes. -/
def classChain (tree : Tree) (id : ClassId) : List ClassId :=
  tree.chainWithin tree.classes.size id

/-- Whether a class is another class or inherits from it. -/
def isSubclassOf (tree : Tree) (id ancestor : ClassId) : Bool :=
  (tree.classChain id).contains ancestor

/-- The number of steps from a class up to an ancestor. -/
def inheritanceDistance? (tree : Tree) (id ancestor : ClassId) : Option Nat :=
  (tree.classChain id).findIdx? (· == ancestor)

/--
The fields of the instances of a class with the classes that declare them,
base class first.  The position of a field is its index inside an instance.
-/
def instanceFields (tree : Tree) (id : ClassId) : List (ClassId × FieldDef) :=
  (tree.classChain id).reverse.flatMap fun owner =>
    (tree.classDef owner).fields.map fun field => (owner, field)

/-- Whether code of a class, or of none, may use a member that another class declares. -/
def admits (tree : Tree) (site : Option ClassId) (declaring : ClassId) :
    Visibility → Bool
  | .publicAccess => true
  | .privateAccess => site == some declaring
  | .protectedAccess =>
      match site with
      | some site => tree.isSubclassOf site declaring
      | none => false

/-- Intern a method signature key. -/
def internMethodKey (tree : Tree) (key : String) : MethodSlot × Tree :=
  match tree.methodKeys.findIdx? (· == key) with
  | some position => (Id.ofIndex position, tree)
  | none =>
      (Id.ofIndex tree.methodKeys.size, { tree with methodKeys := tree.methodKeys.push key })

end Tree

end BotScript
