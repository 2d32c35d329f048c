import BotScript.Proofs.NormalLibrary
import BotScript.Machine.Setup

namespace BotScript

/-!
# Steps that keep cells normal

A step writes cells by stores, and places cells that are normal.  Two steps put a
value into a cell as it is.  An array literal holds its converted items in the
frame until it places them, so the items have to be looked after between steps.
And a place that is demanded of a value is a new cell that holds it: such a place
is demanded only for an array that is written to.
-/

/-! ## Frames -/

/-- An expression of which a place can be demanded: it denotes one, or its value is a reference. -/
def Tree.Placeable (tree : Tree) (id : ExprId) : Prop :=
  (tree.expr id).kind.isPlace = true ∨ (tree.expr id).ty.isReference = true

/-- A place is demanded only where there can be one, and items are values of their array. -/
structure Frame.Normal (tree : Tree) (frame : Frame) : Prop where
  place : ∀ id, frame.node = .expression id .place → tree.Placeable id
  items :
    ∀ id demand, frame.node = .expression id demand →
      ∀ items, (tree.expr id).kind = .arrayLiteral items →
        ∀ element, (tree.expr id).ty.element? = some element →
          ∀ value ∈ frame.values, element.Holds value

/-- The frames that a move leaves are normal. -/
def Move.Normal (tree : Tree) : Move → Prop
  | .push frame child => frame.Normal tree ∧ child.Normal tree
  | .tick frame => frame.Normal tree
  | .complete _ => True

/-- Whether a node is an expression. -/
def Node.isExpression : Node → Bool
  | .expression _ _ => true
  | .start _ | .function _ | .fieldSetup _ | .statement _ => false

namespace Frame

variable {tree : Tree} {frame : Frame}

/-- Nothing is asked of frames of other nodes than expressions. -/
theorem normal_of_other
    (isOther : frame.node.isExpression = false) :
    frame.Normal tree where
  place id isNode := by
    rw [isNode] at isOther
    cases isOther
  items id demand isNode := by
    rw [isNode] at isOther
    cases isOther

/-- A frame of another node than an expression is normal when it is entered. -/
theorem enter_normal
    {node : Node}
    {act : UInt32}
    (isOther : node.isExpression = false) :
    (Frame.enter node act).Normal tree :=
  normal_of_other isOther

/-- The frame of an expression is normal when it is entered for a value. -/
theorem enter_value
    (id : ExprId)
    (act : UInt32) :
    (Frame.enter (.expression id .value) act).Normal tree where
  place _ isNode := by cases isNode
  items _ _ _ _ _ _ _ _ isValue := by cases isValue

/-- The frame of an expression is normal when it is entered for a place that there can be. -/
theorem enter_place
    {id : ExprId}
    (placeable : tree.Placeable id)
    (act : UInt32) :
    (Frame.enter (.expression id .place) act).Normal tree where
  place _ isNode := by
    cases isNode
    exact placeable
  items _ _ _ _ _ _ _ _ isValue := by cases isValue

end Frame

/-! ## Steps -/

namespace Step

variable {α β : Type}

/-- A step keeps cells normal, and its result meets a condition. -/
def Normalizes (post : α → Prop) (step : Step α) : Prop :=
  ∀ memory : Memory, memory.world.heap.Normal →
    (step.run.run memory).2.world.heap.Normal ∧
      ∀ value, (step.run.run memory).1 = .ok value → post value

/-- A step keeps cells normal. -/
class Normalizing (step : Step α) : Prop where
  normalizes : step.Normalizes fun _ => True

namespace Normalizes

variable {post : β → Prop}

/-- A result that needs no step. -/
theorem pure
    {value : β}
    (holds : post value) :
    Normalizes post (Pure.pure value) := by
  refine fun memory normal => ⟨normal, fun result isResult => ?_⟩
  cases isResult
  exact holds

/-- A step and what follows it. -/
theorem bind
    {middle : α → Prop}
    {step : Step α}
    {next : α → Step β}
    (first : Normalizes middle step)
    (rest : ∀ value, middle value → Normalizes post (next value)) :
    Normalizes post (step >>= next) := by
  intro memory normal
  have reached := first memory normal
  simp only [ExceptT.run_bind, StateT.run_bind]
  revert reached
  generalize step.run.run memory = taken
  obtain ⟨result, after⟩ := taken
  rintro ⟨afterNormal, holds⟩
  cases result with
  | ok value => exact rest value (holds value rfl) after afterNormal
  | error interrupt => exact ⟨afterNormal, fun _ failed => by cases failed⟩

/-- What follows a step whose result may be anything. -/
theorem after
    {step : Step α}
    {next : α → Step β}
    [normalizing : Normalizing step]
    (rest : ∀ value, Normalizes post (next value)) :
    Normalizes post (step >>= next) :=
  normalizing.normalizes.bind fun value _ => rest value

/-- An interrupted step. -/
theorem interrupted
    (interrupt : Interrupt) :
    Normalizes post (throw interrupt) :=
  fun _ normal => ⟨normal, fun _ failed => by cases failed⟩

/-- An error. -/
theorem raise
    (code : ErrorCode) :
    Normalizes post (Step.raise code) :=
  interrupted _

/-- A checked result. -/
theorem ofChecked
    (result : Checked β) :
    Normalizes (fun value => result = .ok value) (Step.ofChecked result) := by
  cases result with
  | ok value => exact pure rfl
  | error fault => exact interrupted _

/-- A value that must be there. -/
theorem require
    (code : ErrorCode)
    (value : Option β) :
    Normalizes (fun found => value = some found) (Step.require code value) := by
  cases value with
  | none => exact raise _
  | some value => exact pure rfl

/-- A part of the program. -/
theorem part
    (value : Option β) :
    Normalizes (fun found => value = some found) (Step.part value) := by
  cases value with
  | none => exact interrupted _
  | some value => exact pure rfl

/-- The current heap. -/
theorem heap : Normalizes Heap.Normal Step.heap := by
  refine fun memory normal => ⟨normal, fun heap isHeap => ?_⟩
  cases isHeap
  exact normal

end Normalizes

namespace Normalizing

/-! ### Results and failures -/

/-- Nothing is said of the result. -/
theorem ofNormalizes
    {post : α → Prop}
    {step : Step α}
    (normalizes : Normalizes post step) :
    Normalizing step :=
  ⟨fun memory normal => ⟨(normalizes memory normal).1, fun _ _ => trivial⟩⟩

/-- A result that needs no step. -/
instance pure
    (value : α) :
    Normalizing (Pure.pure value) :=
  ⟨Normalizes.pure trivial⟩

/-- A step and what follows it. -/
instance bind
    (step : Step α)
    (next : α → Step β)
    [Normalizing step]
    [rest : ∀ value, Normalizing (next value)] :
    Normalizing (step >>= next) :=
  ⟨Normalizes.after fun value => (rest value).normalizes⟩

/-- What is shown to follow a step. -/
theorem andThen
    {step : Step α}
    {next : α → Step β}
    [Normalizing step]
    (rest : ∀ value, Normalizing (next value)) :
    Normalizing (step >>= next) :=
  bind step next

/-- One of two steps. -/
instance ite
    (condition : Prop)
    [Decidable condition]
    (first second : Step α)
    [Normalizing first]
    [Normalizing second] :
    Normalizing (if condition then first else second) := by
  split <;> assumption

/-- An interrupted step. -/
instance interrupted
    (interrupt : Interrupt) :
    Normalizing (throw interrupt : Step α) :=
  ⟨.interrupted _⟩

/-- An error. -/
instance raise
    (code : ErrorCode) :
    Normalizing (Step.raise code : Step α) :=
  ⟨.raise _⟩

/-- A checked result. -/
instance ofChecked
    (result : Checked α) :
    Normalizing (Step.ofChecked result) :=
  ofNormalizes (.ofChecked result)

/-- A result that can be an error. -/
instance ofExcept
    (result : Except ErrorCode α) :
    Normalizing (Step.ofExcept result) :=
  ofChecked _

/-- A value that must be there. -/
instance require
    (code : ErrorCode)
    (value : Option α) :
    Normalizing (Step.require code value) :=
  ofNormalizes (.require code value)

/-- A part of the program. -/
instance part
    (value : Option α) :
    Normalizing (Step.part value) :=
  ofNormalizes (.part value)

/-! ### Memory -/

/-- An operation on the heap. -/
theorem allocate
    {operation : Heap → α × Heap}
    (keeps : ∀ heap : Heap, heap.Normal → (operation heap).2.Normal) :
    Normalizing (Step.allocate operation) :=
  ⟨fun _ normal => ⟨keeps _ normal, fun _ _ => trivial⟩⟩

/-- A change of the memory outside the heap. -/
theorem elsewhere
    {change : Memory → Memory}
    (same : ∀ memory, (change memory).world = memory.world) :
    Normalizing (modify change : Step PUnit) := by
  refine ⟨fun memory normal => ⟨?_, fun _ _ => trivial⟩⟩
  change (change memory).world.heap.Normal
  rwa [same memory]

/-- The current memory. -/
instance get : Normalizing (MonadState.get : Step Memory) :=
  ⟨fun _ normal => ⟨normal, fun _ _ => trivial⟩⟩

/-- The current heap. -/
instance heap : Normalizing Step.heap :=
  ofNormalizes .heap

/-- The value of a cell. -/
instance read
    (cell : CellId) :
    Normalizing (Step.read cell) :=
  bind _ _

/-- A store into a cell. -/
instance store
    (cell : CellId)
    (value : Value)
    (source : Ty) :
    Normalizing (Step.store cell value source) := by
  refine ⟨Normalizes.after fun heap => Normalizes.bind (.ofChecked _) fun content stored => ?_⟩
  have set : Normalizing (Step.modifyHeap fun heap => heap.setCell cell content) :=
    allocate fun _ normal => normal.setCell cell (Cell.stored_normal stored)
  exact set.normalizes

/-- A converted value. -/
instance convert
    (value : Value)
    (source target : Ty) :
    Normalizing (Step.convert value source target) :=
  bind _ _

/-- A declared cell is placed. -/
instance addDeclared
    (ty : Ty) :
    Normalizing (Step.allocate fun heap => heap.addCell (.declared ty)) :=
  .allocate fun _ normal => normal.addCell (Cell.declared_normal ty)

/-- A declared variable is placed. -/
instance addFresh
    (ty : Ty)
    (limits : Limits) :
    Normalizing (Step.allocate fun heap => heap.addFresh ty limits) :=
  .allocate fun _ normal => normal.addFresh ty limits

/-- The content of a declared variable. -/
theorem freshCell
    (ty : Ty)
    (limits : Limits) :
    Normalizes Cell.Normal (Step.allocate fun heap => heap.freshCell ty limits) := by
  refine fun memory normal => ⟨(normal.freshCell ty limits).1, fun cell isCell => ?_⟩
  cases isCell
  exact (normal.freshCell ty limits).2

/-- An array is placed. -/
instance addArray
    (array : ArrayData) :
    Normalizing (Step.allocate fun heap => heap.addArray array) :=
  .allocate fun _ normal => normal.ofCells rfl

/-- An array grows up to an element. -/
instance growTo
    (array : ArrayId)
    (position : Nat) :
    Normalizing (Step.allocate fun heap => heap.growTo array position) :=
  .allocate fun _ normal => normal.growTo array position

/-- An instance is placed. -/
instance newInstance
    (layout : ClassLayout) :
    Normalizing (Step.allocate fun heap => heap.newInstance layout) :=
  .allocate fun _ normal => normal.newInstance layout

/-- An initial value is stored. -/
instance storeDeclared
    (cell : CellId)
    (value : Value)
    (source : Ty)
    (limits : Limits) :
    Normalizing (Step.storeDeclared cell value source limits) := by
  refine ⟨Normalizes.heap.bind fun heap normal => ?_⟩
  refine Normalizes.bind (.ofChecked _) fun placed isPlaced => ?_
  have isBounded : heap.bounded value limits = .ok placed := by
    revert isPlaced
    generalize heap.bounded value limits = result
    intro isPlaced
    cases result with
    | error code => cases isPlaced
    | ok found => cases isPlaced; rfl
  have set : Normalizing (Step.setHeap placed.2) :=
    @allocate Unit (fun _ => ((), placed.2)) fun _ _ => normal.bounded isBounded
  exact Normalizes.after fun _ => (store cell placed.1 source).normalizes

/-- The activation of a function. -/
instance activationFor
    (function : FunctionDef)
    (id : FuncId)
    (this : Option ObjectId) :
    Normalizing (Step.activationFor function id this) :=
  have : Normalizing (Step.allocate fun heap =>
      heap.addCells (function.locals.map fun entry => Cell.declared entry.ty)) :=
    .allocate fun _ normal => normal.addDeclared function.locals (·.ty)
  bind _ _

/-- An activation is added. -/
instance pushActivation
    (setting : Setting)
    (activation : Activation) :
    Normalizing (Step.pushActivation setting activation) := by
  have : Normalizing (modify fun
      | ⟨world, activations, statics⟩ => ⟨world, activations.push activation, statics⟩ :
        Step PUnit) :=
    elsewhere fun _ => rfl
  unfold Step.pushActivation
  infer_instance

/-! ### What parts deliver -/

/-- The truth value of a condition. -/
instance truth
    (value : Value) :
    Normalizing (Step.truth value) :=
  ofExcept _

/-- The value a part has delivered. -/
instance valueOf
    (incoming : Option Completion) :
    Normalizing (Step.valueOf incoming) := by
  unfold Step.valueOf
  split <;> infer_instance

/-- The cell a part has delivered. -/
instance placeOf
    (incoming : Option Completion) :
    Normalizing (Step.placeOf incoming) := by
  unfold Step.placeOf
  split <;> infer_instance

/-- What is abrupt goes on to the frame below. -/
instance settle
    (incoming : Option Completion) :
    Normalizing (Step.settle incoming) := by
  unfold Step.settle
  split <;> infer_instance

/-- The truth value a condition has delivered. -/
instance conditionOf
    (incoming : Option Completion) :
    Normalizing (Step.conditionOf incoming) :=
  bind _ _

/-- The static type of an expression. -/
instance typeOf
    (tree : Tree)
    (id : ExprId) :
    Normalizing (Step.typeOf tree id) :=
  bind _ _

/-- An operand of a binary operator. -/
instance operand
    (value : Value)
    (source target : Ty) :
    Normalizing (Step.operand value source target) := by
  unfold Step.operand
  infer_instance

/-- The activation of a frame. -/
instance activationOf
    (frame : Frame) :
    Normalizing (Step.activationOf frame) :=
  bind _ _

/-- Whether a loop goes on after its body. -/
instance goesOn
    (label : Option String)
    (incoming : Option Completion) :
    Normalizing (Step.goesOn label incoming) := by
  unfold Step.goesOn
  split <;> infer_instance

/-- Whether a clause catches the exception held back. -/
instance catches
    (frame : Frame)
    (clause : CatchClause)
    (tested : Value) :
    Normalizing (Step.catches frame clause tested) := by
  unfold Step.catches
  split
  · infer_instance
  · split <;> infer_instance

/-! ### Calls and places -/

/-- The instance that a receiver denotes. -/
instance receiver
    (value : Option Value) :
    Normalizing (Step.receiver value) := by
  unfold Step.receiver
  split <;> infer_instance

/-- The cells of parameters that hold the arguments of a call. -/
instance bindParams
    (tree : Tree)
    (params : List Param)
    (arguments : List ExprId)
    (values : List Value)
    (locals : Array CellId) :
    Normalizing (Step.bindParams tree params arguments values locals) := by
  induction params generalizing arguments values locals with
  | nil => exact pure _
  | cons param params inductionHypothesis =>
      match arguments, values with
      | [], _ => exact pure _
      | _ :: _, [] => exact pure _
      | argument :: arguments, value :: values =>
          exact andThen fun cell => andThen fun source => andThen fun _ =>
            inductionHypothesis arguments values _

/-- The activation of a call is added. -/
instance bindCall
    (setting : Setting)
    (id : FuncId)
    (this : Option ObjectId)
    (arguments : List ExprId)
    (values : List Value) :
    Normalizing (Step.bind setting id this arguments values) := by
  unfold Step.bind
  infer_instance

/-- The static types of arguments. -/
instance typesOf
    (tree : Tree)
    (arguments : List ExprId) :
    Normalizing (arguments.mapM (Step.typeOf tree)) := by
  induction arguments with
  | nil => exact pure _
  | cons argument arguments inductionHypothesis =>
      rw [List.mapM_cons]
      infer_instance

/-- An action on the world that writes cells as a host does. -/
instance ofAction
    (action : Action α)
    [writing : action.Writing] :
    Normalizing (Step.ofAction action) := by
  have acts :
      Normalizing (modifyGet fun
        | (⟨world, activations, statics⟩ : Memory) =>
            let (result, world) := action.run.run world
            (result, (⟨world, activations, statics⟩ : Memory)) : Step (Checked α)) :=
    ⟨fun memory normal => ⟨(writing.writes memory.world).normal normal, fun _ _ => trivial⟩⟩
  exact bind _ _

/-- The array a write through a cell goes to. -/
instance arrayForWrite
    (holder : CellId) :
    Normalizing (Step.arrayForWrite holder) := by
  refine andThen fun heap => ?_
  dsimp only
  split <;> infer_instance

/-- The position that an index expression has delivered. -/
instance indexOf
    (incoming : Option Completion) :
    Normalizing (Step.indexOf incoming) := by
  refine andThen fun value => ?_
  split <;> infer_instance

/-- The store of an assignment. -/
instance assignTo
    (cell : CellId)
    (op : Option BinaryOp)
    (common ty source : Ty)
    (assigned : Value) :
    Normalizing (Step.assignTo cell op common ty source assigned) := by
  unfold Step.assignTo
  split <;> infer_instance

/-- The store of the initial value of a static field. -/
instance storeStatic
    (setting : Setting)
    (frame : Frame)
    (value : Value) :
    Normalizing (Step.storeStatic setting frame value) := by
  unfold Step.storeStatic
  infer_instance

/-- The store of the initial value of a field. -/
instance storeField
    (tree : Tree)
    (this : ObjectId)
    (frame : Frame)
    (fields : List FieldDef)
    (value : Value) :
    Normalizing (Step.storeField tree this frame fields value) := by
  unfold Step.storeField
  infer_instance

end Normalizing

end Step

end BotScript
