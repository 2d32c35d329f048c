import BotScript.Diagnostic
import BotScript.Tree.Item
import BotScript.Value.Convert

namespace BotScript

/-!
# Frames

A running program is a chain of frames.  Each frame executes one node of the
tree, remembers which of its own steps comes next, and hands a completion to
the frame below when it is done.
-/

/-- What an expression delivers to the frame below it. -/
inductive Demand where
  /-- The value of the expression. -/
  | value
  /-- The cell the expression denotes, for a store; arrays grow to the index. -/
  | place
  deriving Repr, DecidableEq, Inhabited

/-- What a frame executes. -/
inductive Node where
  /-- The root of a chain: the static fields, then the entry function. -/
  | start (entry : FuncId)
  /-- The body of a function. -/
  | function (function : FuncId)
  /-- The initial values of the fields of a new instance. -/
  | fieldSetup (owner : ClassId)
  | statement (id : StmtId)
  | expression (id : ExprId) (demand : Demand)
  deriving Repr, DecidableEq, Inhabited

namespace Node

/-- Whether the frames of a node own an activation. -/
def ownsActivation : Node → Bool
  | .start _ | .function _ | .fieldSetup _ => true
  | .statement _ | .expression _ _ => false

/-- The place in the source at which the errors of a node are reported. -/
def span (tree : Tree) : Node → Span
  | .start id | .function id => ((tree.function? id).map (·.span)).getD Span.none
  | .fieldSetup id => ((tree.class? id).map (·.span)).getD Span.none
  | .statement id => ((tree.stmt? id).map (·.span)).getD Span.none
  | .expression id _ => ((tree.expr? id).map (·.span)).getD Span.none

end Node

/-- How a frame ended. -/
inductive Completion where
  /-- A statement ran to its end. -/
  | normal
  /-- An expression has a value. -/
  | value (value : Value)
  /-- An expression denotes a cell. -/
  | place (cell : CellId)
  | breakTo (label : Option String)
  | continueTo (label : Option String)
  | returned (value : Value)
  | thrown (error : RuntimeError)
  deriving Repr, DecidableEq, Inhabited

/-- Whether a completion skips the rest of the statements around it. -/
def Completion.isAbrupt : Completion → Bool
  | .normal | .value _ | .place _ => false
  | .breakTo _ | .continueTo _ | .returned _ | .thrown _ => true

/-- One element of the chain of a running program. -/
structure Frame where
  node : Node
  /-- The step of the node that comes next. -/
  state : UInt32 := 0
  /-- The position in a list of statements, arguments or classes. -/
  cursor : UInt32 := 0
  /-- A second position: a catch clause, a static field or the branch taken. -/
  aux : UInt32 := 0
  /-- The operands evaluated so far. -/
  values : List Value := []
  /-- The target of an assignment in progress. -/
  place : Option CellId := none
  /-- The completion held back while a `finally` block runs. -/
  pending : Option Completion := none
  /-- The position of the activation from which the frame reads its variables. -/
  act : UInt32
  deriving Repr, DecidableEq, Inhabited

/-- A frame at its first step. -/
def Frame.enter (node : Node) (act : UInt32) : Frame :=
  { node, act }

/-- The variables and the receiver of a function that is being executed. -/
structure Activation where
  function : Option FuncId
  this : Option ObjectId
  /-- One cell for each variable; a declaration replaces the cell of its variable. -/
  locals : Array CellId
  deriving Repr, DecidableEq, Inhabited

/-- An activation without variables, for initial values. -/
def Activation.bare (this : Option ObjectId) : Activation :=
  ⟨none, this, #[]⟩

end BotScript
