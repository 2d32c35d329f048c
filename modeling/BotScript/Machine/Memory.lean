import BotScript.Host.Registry
import BotScript.Machine.Frame
import BotScript.Value.Array
import BotScript.Value.Operator

namespace BotScript

/-!
# The memory of a running program

A step reads and changes the heap, the host and the activations.  It reads
nothing of the chain but its own frame and the completion handed to it, and
what it changes stays changed when it fails.
-/

/-- What stays the same during a run. -/
structure Setting where
  tree : Tree
  registry : Registry
  /-- The number of activations that may exist at a time. -/
  callDepth : UInt32

/-- What steps read and change. -/
structure Memory where
  world : World
  activations : Array Activation
  /-- The cells of the static fields, for each class. -/
  statics : Array (Array CellId)
  deriving Repr, DecidableEq, Inhabited

/-- Why a step takes no action of its own. -/
inductive Interrupt where
  /-- The step failed; an error is thrown at the node of the frame. -/
  | fault (fault : Fault)
  /-- A completion that the frame does not handle. -/
  | propagate (completion : Completion)
  deriving Repr, DecidableEq, Inhabited

/-- What happens to the chain after a step. -/
inductive Move where
  /-- The frame stays, and another frame runs on top of it. -/
  | push (frame child : Frame)
  /-- The frame stays, and one step is counted. -/
  | tick (frame : Frame)
  /-- The frame is done. -/
  | complete (completion : Completion)
  deriving Repr, DecidableEq, Inhabited

/-- A step of a frame; its changes of the memory stay when it is interrupted. -/
abbrev Step := ExceptT Interrupt (StateM Memory)

namespace Step

/-- Throw an error that scripts can catch. -/
def raise {α : Type} (code : ErrorCode) : Step α :=
  throw (.fault (.error code))

/-- The result of an operation that can fail with a fault. -/
def ofChecked {α : Type} : Checked α → Step α
  | .ok value => pure value
  | .error fault => throw (.fault fault)

/-- The result of an operation that can fail with an error. -/
def ofExcept {α : Type} (result : Except ErrorCode α) : Step α :=
  ofChecked (.ofExcept result)

/-- A value that must be there, or else an error. -/
def require {α : Type} (code : ErrorCode) : Option α → Step α
  | some value => pure value
  | none => raise code

/-- A part that the program must have. -/
def part {α : Type} : Option α → Step α
  | some value => pure value
  | none => throw (.fault .missingPart)

/-- The current heap. -/
def heap : Step Heap := do
  return (← get).world.heap

/-- An operation that changes the heap and has a result. -/
def allocate {α : Type} (operation : Heap → α × Heap) : Step α :=
  modifyGet fun
    | ⟨⟨heap, host⟩, activations, statics⟩ =>
        let (result, heap) := operation heap
        (result, ⟨⟨heap, host⟩, activations, statics⟩)

/-- Change the heap. -/
def modifyHeap (change : Heap → Heap) : Step Unit :=
  allocate fun heap => ((), change heap)

/-- Replace the heap. -/
def setHeap (heap : Heap) : Step Unit :=
  modifyHeap fun _ => heap

/-- An action on the world. -/
def ofAction {α : Type} (action : Action α) : Step α := do
  let result ← modifyGet fun
    | ⟨world, activations, statics⟩ =>
        let (result, world) := action.run.run world
        (result, (⟨world, activations, statics⟩ : Memory))
  ofChecked result

/-- The value of a cell; a cell without a value is an error. -/
def read (cell : CellId) : Step Value := do
  ofExcept ((← heap).read cell)

/-- Store a value of a static type into a cell. -/
def store (id : CellId) (value : Value) (source : Ty) : Step Unit := do
  let heap ← heap
  let cell ← ofChecked ((heap.cell id).stored heap (some id) value source)
  modifyHeap fun heap => heap.setCell id cell

/-- A value of one static type, converted to another type. -/
def convert (value : Value) (source target : Ty) : Step Value := do
  ofChecked ((← heap).convert value source target)

/-- The truth value of a condition. -/
def truth (value : Value) : Step Bool :=
  ofExcept value.truth

/-- The value a part has delivered; what is abrupt goes on to the frame below. -/
def valueOf (incoming : Option Completion) : Step Value :=
  match incoming with
  | some (.value value) => pure value
  | some (.place cell) => read cell
  | some completion =>
      if completion.isAbrupt then throw (.propagate completion) else raise .notRunning
  | none => raise .notRunning

/-- The cell a part has delivered. -/
def placeOf (incoming : Option Completion) : Step CellId :=
  match incoming with
  | some (.place cell) => pure cell
  | some completion =>
      if completion.isAbrupt then throw (.propagate completion) else raise .notRunning
  | none => raise .notRunning

/-- Go on after a statement; what is abrupt goes on to the frame below. -/
def settle (incoming : Option Completion) : Step Unit :=
  match incoming with
  | some completion => if completion.isAbrupt then throw (.propagate completion) else pure ()
  | none => pure ()

/-- The truth value a condition has delivered. -/
def conditionOf (incoming : Option Completion) : Step Bool := do
  truth (← valueOf incoming)

/-- Deliver a cell, or its value. -/
def deliver (cell : CellId) (demand : Demand) : Step Move := do
  match demand with
  | .place => pure (.complete (.place cell))
  | .value => pure (.complete (.value (← read cell)))

/-- Deliver a value, or a temporary cell that holds it. -/
def produce (value : Value) (ty : Ty) (demand : Demand) : Step Move := do
  match demand with
  | .value => pure (.complete (.value value))
  | .place =>
      let cell ← allocate fun heap => heap.addCell (.withValue ty value)
      pure (.complete (.place cell))

/-- The static type of an expression. -/
def typeOf (tree : Tree) (id : ExprId) : Step Ty := do
  return (← part (tree.expr? id)).ty

/-- An operand converted for a binary operator; references stay as they are. -/
def operand (value : Value) (source target : Ty) : Step Value :=
  if target.isReference then pure value else convert value source target

/-- The activation of a frame. -/
def activationOf (frame : Frame) : Step Activation := do
  require .notRunning (← get).activations[frame.act.toNat]?

/-- Add an activation; the result is its position. -/
def pushActivation (setting : Setting) (activation : Activation) : Step UInt32 := do
  let count := (← get).activations.size
  if setting.callDepth.toNat ≤ count then raise .stackOverflow
  modify fun
    | ⟨world, activations, statics⟩ => ⟨world, activations.push activation, statics⟩
  pure (UInt32.ofNat count)

/-- The activation of a function in which every variable is freshly declared. -/
def activationFor (function : FunctionDef) (id : FuncId) (this : Option ObjectId) :
    Step Activation := do
  let locals ← allocate fun heap =>
    heap.addCells (function.locals.map fun entry => Cell.declared entry.ty)
  pure ⟨some id, this, locals⟩

end Step

namespace Heap

/-- A variable declared without a value; an array with limits starts empty. -/
def freshCell (heap : Heap) (ty : Ty) (limits : Limits) : Cell × Heap :=
  match ty with
  | .array element =>
      if limits.isEmpty then (.declared ty, heap)
      else
        let (id, heap) := heap.addArray (.empty element limits)
        (.withDefault ty (.array id), heap)
  | _ => (.declared ty, heap)

/-- Place a variable declared without a value. -/
def addFresh (heap : Heap) (ty : Ty) (limits : Limits) : CellId × Heap :=
  let (cell, heap) := heap.freshCell ty limits
  heap.addCell cell

/-- Append cells to an array in order, as far as it takes them. -/
def pushElements (heap : Heap) (id : ArrayId) : List CellId → Except ErrorCode Heap
  | [] => .ok heap
  | cell :: rest => do
      let heap ← heap.pushElement id cell
      heap.pushElements id rest

/--
An initial value as a declaration with limits holds it.  An array goes into an
array with the declared limits, which shares the elements of the first one.
-/
def bounded (heap : Heap) (value : Value) (limits : Limits) :
    Except ErrorCode (Value × Heap) :=
  match value, limits with
  | .array source, some _ :: _ => do
      let data := heap.array source
      let (id, heap) := heap.addArray (.empty data.element limits)
      let heap ← heap.pushElements id data.items.toList
      pure (.array id, heap)
  | _, _ => .ok (value, heap)

end Heap

namespace Step

/-- Store an initial value into a declared variable. -/
def storeDeclared (cell : CellId) (value : Value) (source : Ty) (limits : Limits) :
    Step Unit := do
  let heap ← heap
  let (value, heap) ← ofExcept (heap.bounded value limits)
  setHeap heap
  store cell value source

/-- Run a statement on top of a frame. -/
def pushStatement (frame : Frame) (id : StmtId) : Move :=
  .push frame (.enter (.statement id) frame.act)

/-- Evaluate an expression on top of a frame. -/
def pushExpression (frame : Frame) (id : ExprId) (demand : Demand) : Move :=
  .push frame (.enter (.expression id demand) frame.act)

end Step

end BotScript
