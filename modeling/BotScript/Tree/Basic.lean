import BotScript.Number.Double
import BotScript.Operator
import BotScript.Span
import BotScript.Type

namespace BotScript

/-!
# The instruction tree

A compiled program consists of flat tables of expressions and statements, in
which nodes refer to their parts by identifier, and of its functions and classes.
-/

/-- The tables an identifier can belong to. -/
inductive Table where
  | expressions
  | statements
  | functions
  | classes
  | natives
  | locals
  | methods
  deriving Repr, DecidableEq

/-- An index into one of the tables of a program. -/
structure Id (table : Table) where
  raw : UInt32
  deriving Repr, DecidableEq, Inhabited

namespace Id

/-- The identifier of a table position. -/
def ofIndex {table : Table} (index : Nat) : Id table :=
  ⟨Word.ofNat index⟩

/-- The table position an identifier stands for. -/
def index {table : Table} (id : Id table) : Nat :=
  id.raw.toNat

end Id

/-- An expression of a tree. -/
abbrev ExprId := Id .expressions

/-- A statement of a tree. -/
abbrev StmtId := Id .statements

/-- A function or method of a tree. -/
abbrev FuncId := Id .functions

/-- A class of a tree. -/
abbrev ClassId := Id .classes

/-- A function or method of the host. -/
abbrev NativeId := Id .natives

/-- A variable of one function. -/
abbrev LocalSlot := Id .locals

/-- An interned method signature, the key of dynamic dispatch. -/
abbrev MethodSlot := Id .methods

/-- The value of a literal expression. -/
inductive LiteralValue where
  | bool (value : Bool)
  | int (value : Int64)
  | float (value : Double)
  | str (value : String)
  | null
  | nan
  deriving Repr, DecidableEq, Inhabited

/-- How a method is implemented. -/
inductive MethodImpl where
  | user (function : FuncId)
  | native (native : NativeId)
  deriving Repr, DecidableEq, Inhabited

/-- The form of an expression and its parts. -/
inductive ExprKind where
  | literal (value : LiteralValue)
  | localVar (slot : LocalSlot)
  | this
  | field (object : ExprId) (index : UInt32)
  | staticField (owner : ClassId) (index : UInt32)
  | index (array : ExprId) (position : ExprId)
  | assign (op : Option BinaryOp) (operand : Ty) (target : ExprId) (value : ExprId)
  | step (op : StepOp) (target : ExprId)
  | binary (op : BinaryOp) (operand : Ty) (left : ExprId) (right : ExprId)
  | logical (op : LogicalOp) (left : ExprId) (right : ExprId)
  | conditional (condition : ExprId) (whenTrue : ExprId) (whenFalse : ExprId)
  | unary (op : UnaryOp) (operand : ExprId)
  | call (function : FuncId) (arguments : List ExprId)
  | nativeCall (native : NativeId) (arguments : List ExprId)
  | methodCall
      (object : ExprId) (slot : Option MethodSlot) (target : MethodImpl)
      (arguments : List ExprId)
  | new (owner : ClassId) (constructor : Option MethodImpl) (arguments : List ExprId)
  | arrayLiteral (items : List ExprId)
  deriving Repr, DecidableEq, Inhabited

/-- An expression with its static type and its place in the source. -/
structure Expr where
  kind : ExprKind
  ty : Ty
  span : Span
  deriving Repr, DecidableEq, Inhabited

/-- One label of a switch and the statement it jumps to; the default label has no value. -/
structure SwitchCase where
  value : Option Int64
  start : UInt32
  deriving Repr, DecidableEq, Inhabited

/-- How a catch clause decides whether it applies. -/
inductive CatchKind where
  /-- The clause catches exceptions with the number that its expression has. -/
  | code
  /-- The clause catches any exception while its condition is true. -/
  | condition
  deriving Repr, DecidableEq, Inhabited

/-- One clause of a try statement that handles exceptions. -/
structure CatchClause where
  kind : CatchKind
  condition : ExprId
  body : StmtId
  span : Span
  deriving Repr, DecidableEq, Inhabited

/-- The form of a statement and its parts. -/
inductive StmtKind where
  | expression (value : ExprId)
  | declare (slot : LocalSlot) (limits : Limits) (initial : Option ExprId)
  | block (statements : List StmtId)
  | branch (condition : ExprId) (whenTrue : StmtId) (whenFalse : Option StmtId)
  | whileLoop (label : Option String) (condition : ExprId) (body : StmtId)
  | doLoop (label : Option String) (body : StmtId) (condition : ExprId)
  | forLoop
      (label : Option String) (initial : List StmtId) (condition : Option ExprId)
      (steps : List ExprId) (body : StmtId)
  | repeatLoop (label : Option String) (count : ExprId) (body : StmtId)
  | switchOn (value : ExprId) (cases : List SwitchCase) (body : List StmtId)
  | breakTo (label : Option String)
  | continueTo (label : Option String)
  | returnWith (value : Option ExprId)
  | throwCode (value : ExprId)
  | guarded (body : List StmtId) (clauses : List CatchClause) (final : Option StmtId)
  deriving Repr, DecidableEq, Inhabited

/-- A statement with its place in the source. -/
structure Stmt where
  kind : StmtKind
  span : Span
  deriving Repr, DecidableEq, Inhabited

namespace ExprKind

/-- The direct parts of an expression, in order of evaluation. -/
def children : ExprKind → List ExprId
  | .literal _ | .localVar _ | .this | .staticField _ _ => []
  | .field object _ => [object]
  | .index array position => [array, position]
  | .assign _ _ target value => [target, value]
  | .step _ target => [target]
  | .binary _ _ left right | .logical _ left right => [left, right]
  | .conditional condition whenTrue whenFalse => [condition, whenTrue, whenFalse]
  | .unary _ operand => [operand]
  | .call _ arguments | .nativeCall _ arguments | .new _ _ arguments => arguments
  | .arrayLiteral items => items
  | .methodCall object _ _ arguments => object :: arguments

/-- Whether an expression denotes a place that can be written. -/
def isPlace : ExprKind → Bool
  | .localVar _ | .field _ _ | .staticField _ _ | .index _ _ => true
  | _ => false

end ExprKind

namespace StmtKind

/-- The label of a loop. -/
def label? : StmtKind → Option String
  | .whileLoop label _ _ | .doLoop label _ _ | .forLoop label _ _ _ _
  | .repeatLoop label _ _ => label
  | _ => none

/-- Whether a statement is a loop. -/
def isLoop : StmtKind → Bool
  | .whileLoop _ _ _ | .doLoop _ _ _ | .forLoop _ _ _ _ _ | .repeatLoop _ _ _ => true
  | _ => false

/-- The direct expressions of a statement. -/
def childExprs : StmtKind → List ExprId
  | .expression value | .throwCode value => [value]
  | .declare _ _ initial => initial.toList
  | .returnWith value => value.toList
  | .branch condition _ _ | .whileLoop _ condition _ | .doLoop _ _ condition => [condition]
  | .forLoop _ _ condition steps _ => condition.toList ++ steps
  | .repeatLoop _ count _ => [count]
  | .switchOn value _ _ => [value]
  | .guarded _ clauses _ => clauses.map (·.condition)
  | .block _ | .breakTo _ | .continueTo _ => []

/-- The direct statements of a statement. -/
def childStmts : StmtKind → List StmtId
  | .block statements => statements
  | .switchOn _ _ body => body
  | .branch _ whenTrue whenFalse => whenTrue :: whenFalse.toList
  | .whileLoop _ _ body | .doLoop _ body _ | .repeatLoop _ _ body => [body]
  | .forLoop _ initial _ _ body => initial ++ [body]
  | .guarded body clauses final => body ++ clauses.map (·.body) ++ final.toList
  | .expression _ | .declare _ _ _ | .breakTo _ | .continueTo _ | .returnWith _
  | .throwCode _ => []

end StmtKind

end BotScript
