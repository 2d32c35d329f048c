import BotScript.Proofs.Lockstep
import BotScript.Machine.Setup

namespace BotScript

/-!
# The activations that a step leaves behind

A step replaces variables of activations, but never the function that an
activation belongs to, nor the number of its variables.  It adds at most one
activation, for the frame that it pushes, and it gives none up.  What a frame
delivers suits its node: a jump only leaves statements.
-/

/-- What stays the same of an activation as long as it exists. -/
structure Outline where
  function : Option FuncId
  /-- The number of variables. -/
  slots : Nat
  deriving Repr, DecidableEq

/-- There is a cell for each content. -/
theorem Heap.size_addCells
    (heap : Heap)
    (cells : List Cell) :
    (heap.addCells cells).1.size = cells.length := by
  induction cells generalizing heap with
  | nil => rfl
  | cons first rest inductionHypothesis =>
      simp [Heap.addCells, inductionHypothesis, Nat.add_comm]

/-- The outline of an activation. -/
def Activation.outline (activation : Activation) : Outline :=
  ⟨activation.function, activation.locals.size⟩

/-- The outlines of the activations of a memory. -/
def Memory.outlines (memory : Memory) : List Outline :=
  memory.activations.toList.map Activation.outline

namespace Node

/-- Whether frames of a node run statements, whose jumps they handle. -/
def runsStatements : Node → Bool
  | .function _ | .statement _ => true
  | .start _ | .fieldSetup _ | .expression _ _ => false

/-- Whether frames of a node can run frames of another node: statements run in statements. -/
def Carries (parent child : Node) : Prop :=
  ∀ id, child = .statement id → parent.runsStatements = true

/-- Whether a frame of a node can end with a completion. -/
def Delivers : Node → Completion → Prop
  | .statement _, _ => True
  | _, .thrown _ => True
  | .expression _ .value, .value _ => True
  | .expression _ .place, .place _ => True
  | .start _, .value _ => True
  | .function _, .value _ => True
  | .fieldSetup _, .normal => True
  | _, _ => False

/-- Whether a frame of a node can be handed a completion: jumps only get to statements. -/
def Takes (node : Node) (completion : Completion) : Prop :=
  node.runsStatements = false → completion.isAbrupt = true → ∃ error, completion = .thrown error

/-- Whether an activation with an outline can belong to a frame of a node. -/
def Heads (tree : Tree) : Node → Outline → Prop
  | .function id, outline =>
      outline.function = some id ∧
        ∃ function, tree.function? id = some function ∧
          outline.slots = function.locals.length
  | _, _ => True

variable {parent child node : Node} {completion : Completion}

/-- Every frame can end with an exception. -/
theorem delivers_thrown
    (node : Node)
    (error : RuntimeError) :
    node.Delivers (.thrown error) := by
  cases node with
  | expression _ demand => cases demand <;> trivial
  | _ => trivial

/-- What ends a frame other than that of a statement abruptly is an exception. -/
theorem Delivers.thrown_of_abrupt
    (delivers : node.Delivers completion)
    (isOther : ∀ id, node ≠ .statement id)
    (abrupt : completion.isAbrupt = true) :
    ∃ error, completion = .thrown error := by
  cases completion with
  | thrown error => exact ⟨error, rfl⟩
  | normal => cases abrupt
  | value value => cases abrupt
  | place cell => cases abrupt
  | _ =>
      cases node with
      | statement id => exact absurd rfl (isOther id)
      | expression id demand => cases demand <;> cases delivers
      | _ => cases delivers

/-- What a frame delivers can be handed to the frame that runs it. -/
theorem Delivers.takes
    (delivers : child.Delivers completion)
    (carries : parent.Carries child) :
    parent.Takes completion := by
  intro outside abrupt
  refine delivers.thrown_of_abrupt ?_ abrupt
  rintro id rfl
  exact absurd (carries id rfl) (by simp [outside])

/-- What is handed to a frame and is abrupt can go on to the frame below. -/
theorem Takes.delivers
    (takes : node.Takes completion)
    (abrupt : completion.isAbrupt = true)
    (isOther : ∀ id, node ≠ .function id) :
    node.Delivers completion := by
  cases node with
  | statement id => trivial
  | function id => exact absurd rfl (isOther id)
  | _ =>
      obtain ⟨error, rfl⟩ := takes rfl abrupt
      exact delivers_thrown _ _

end Node

namespace Memory

variable {memory : Memory}

/-- There is an outline for each activation. -/
theorem length_outlines : memory.outlines.length = memory.activations.size := by
  simp [outlines]

/-- An activation that is replaced by one with its outline. -/
theorem outlines_replace
    {position : Nat}
    {activation : Activation}
    (same : memory.outlines[position]? = some activation.outline) :
    (memory.activations.setIfInBounds position activation).toList.map Activation.outline =
      memory.outlines := by
  rw [Array.toList_setIfInBounds, List.map_set]
  obtain ⟨inside, found⟩ := List.getElem?_eq_some_iff.mp same
  rw [← found]
  exact List.set_getElem_self inside

end Memory

/-- A frame at another step of its node. -/
def Frame.Stays (frame origin : Frame) : Prop :=
  frame.node = origin.node ∧ frame.act = origin.act

namespace Step

variable {α β : Type} {setting : Setting} {held : List Outline} {node : Node}
  {origin frame : Frame} {incoming : Option Completion}

/-- What a step with a result leads to when it leaves the outlines alone. -/
inductive Retained (held : List Outline) (node : Node) (post : α → Prop) :
    Except Interrupt α × Memory → Prop where
  | ok
      {value : α}
      {after : Memory} :
      after.outlines = held →
      post value →
      Retained held node post (.ok value, after)
  | fault
      {fault : Fault}
      {after : Memory} :
      after.outlines = held →
      Retained held node post (.error (.fault fault), after)
  | propagate
      {completion : Completion}
      {after : Memory} :
      after.outlines = held →
      node.Delivers completion →
      Retained held node post (.error (.propagate completion), after)

/-- A step of a frame of a node leaves the outlines alone, and its result meets a condition. -/
def Retains (held : List Outline) (node : Node) (post : α → Prop) (step : Step α) : Prop :=
  ∀ memory : Memory, memory.outlines = held → Retained held node post (step.run.run memory)

/-- What the step of a frame leads to. -/
inductive Obeyed (setting : Setting) (origin : Frame) (held : List Outline) :
    Except Interrupt Move × Memory → Prop where
  | pushPart
      {stay : Frame}
      {node : Node}
      {after : Memory} :
      stay.Stays origin →
      node.ownsActivation = false →
      origin.node.Carries node →
      after.outlines = held →
      Obeyed setting origin held (.ok (.push stay (.enter node origin.act)), after)
  | pushOwner
      {stay : Frame}
      {node : Node}
      {act : UInt32}
      {outline : Outline}
      {after : Memory} :
      stay.Stays origin →
      node.ownsActivation = true →
      node.Heads setting.tree outline →
      held.length < setting.callDepth.toNat →
      act.toNat = held.length →
      after.outlines = held ++ [outline] →
      Obeyed setting origin held (.ok (.push stay (.enter node act)), after)
  | tick
      {stay : Frame}
      {after : Memory} :
      stay.Stays origin →
      (∃ id, origin.node = .statement id) →
      after.outlines = held →
      Obeyed setting origin held (.ok (.tick stay), after)
  | complete
      {completion : Completion}
      {after : Memory} :
      origin.node.Delivers completion →
      after.outlines = held →
      Obeyed setting origin held (.ok (.complete completion), after)
  | fault
      {fault : Fault}
      {after : Memory} :
      after.outlines = held →
      Obeyed setting origin held (.error (.fault fault), after)
  | propagate
      {completion : Completion}
      {after : Memory} :
      after.outlines = held →
      origin.node.Delivers completion →
      Obeyed setting origin held (.error (.propagate completion), after)

/-- The step of a frame makes one of the moves of its node. -/
def Obeys (setting : Setting) (origin : Frame) (held : List Outline) (step : Step Move) : Prop :=
  ∀ memory : Memory, memory.outlines = held →
    Obeyed setting origin held (step.run.run memory)

/-- What is handed to a frame and is abrupt can go on to the frame below. -/
def HandsOn (node : Node) (incoming : Option Completion) : Prop :=
  ∀ completion, incoming = some completion → completion.isAbrupt = true →
    node.Delivers completion

/-! ## Results -/

namespace Retains

/-- A result that needs no step. -/
theorem pure
    {post : α → Prop}
    {value : α}
    (holds : post value) :
    Retains held node post (Pure.pure value) :=
  fun _ same => .ok same holds

/-- A step and what follows it. -/
theorem bind
    {middle : α → Prop}
    {post : β → Prop}
    {step : Step α}
    {next : α → Step β}
    (first : Retains held node middle step)
    (rest : ∀ value, middle value → Retains held node post (next value)) :
    Retains held node post (step >>= next) := by
  intro memory same
  have retained := first memory same
  simp only [ExceptT.run_bind, StateT.run_bind]
  revert retained
  generalize step.run.run memory = reached
  intro retained
  cases retained with
  | ok outlines holds => exact rest _ holds _ outlines
  | fault outlines => exact .fault outlines
  | propagate outlines delivers => exact .propagate outlines delivers

/-- A step whose result matters no more. -/
theorem weaken
    {post : α → Prop}
    {step : Step α}
    (retains : Retains held node post step) :
    Retains held node (fun _ => True) step := by
  rw [← bind_pure step]
  exact retains.bind fun _ _ => pure trivial

/-- A fault. -/
theorem throw
    {post : α → Prop}
    (fault : Fault) :
    Retains held node post (MonadExcept.throw (.fault fault)) :=
  fun _ same => .fault same

/-- A completion that goes on to the frame below. -/
theorem propagate
    {post : α → Prop}
    {completion : Completion}
    (delivers : node.Delivers completion) :
    Retains held node post (MonadExcept.throw (.propagate completion)) :=
  fun _ same => .propagate same delivers

/-- An error. -/
theorem raise
    {post : α → Prop}
    (code : ErrorCode) :
    Retains held node post (Step.raise code) :=
  throw _

/-- A checked result. -/
theorem ofChecked
    (result : Checked α) :
    Retains held node (fun _ => True) (Step.ofChecked result) := by
  cases result with
  | ok value => exact pure trivial
  | error fault => exact throw fault

/-- A result that can be an error. -/
theorem ofExcept
    (result : Except ErrorCode α) :
    Retains held node (fun _ => True) (Step.ofExcept result) :=
  ofChecked _

/-- A value that must be there. -/
theorem require
    (code : ErrorCode)
    (value : Option α) :
    Retains held node (fun found => value = some found) (Step.require code value) := by
  cases value with
  | none => exact raise code
  | some value => exact pure rfl

/-- A part of the program. -/
theorem part
    (value : Option α) :
    Retains held node (fun found => value = some found) (Step.part value) := by
  cases value with
  | none => exact throw _
  | some value => exact pure rfl

/-- The current memory. -/
theorem get :
    Retains held node (fun memory => memory.outlines = held) MonadState.get :=
  fun _ same => .ok same same

/-- The current heap. -/
theorem heap :
    Retains held node (fun _ => True) Step.heap :=
  fun _ same => .ok same trivial

/-- An operation on the heap whose results meet a condition. -/
theorem allocateWith
    {post : α → Prop}
    {operation : Heap → α × Heap}
    (holds : ∀ heap, post (operation heap).1) :
    Retains held node post (Step.allocate operation) :=
  fun _ same => .ok same (holds _)

/-- An operation on the heap. -/
theorem allocate
    (operation : Heap → α × Heap) :
    Retains held node (fun _ => True) (Step.allocate operation) :=
  allocateWith fun _ => trivial

/-- A change of the heap. -/
theorem modifyHeap
    (change : Heap → Heap) :
    Retains held node (fun _ => True) (Step.modifyHeap change) :=
  allocate _

/-- A replaced heap. -/
theorem setHeap
    (heap : Heap) :
    Retains held node (fun _ => True) (Step.setHeap heap) :=
  modifyHeap _

/-- An action on the world. -/
theorem ofAction
    (action : Action α) :
    Retains held node (fun _ => True) (Step.ofAction action) := by
  refine bind ?_ fun result (_ : True) => ofChecked result
  exact fun _ same => .ok same trivial

/-- The value of a cell. -/
theorem read
    (cell : CellId) :
    Retains held node (fun _ => True) (Step.read cell) :=
  heap.bind fun _ _ => ofExcept _

/-- A store into a cell. -/
theorem store
    (cell : CellId)
    (value : Value)
    (source : Ty) :
    Retains held node (fun _ => True) (Step.store cell value source) :=
  heap.bind fun _ _ => (ofChecked _).bind fun _ _ => allocate _

/-- A converted value. -/
theorem convert
    (value : Value)
    (source target : Ty) :
    Retains held node (fun _ => True) (Step.convert value source target) :=
  heap.bind fun _ _ => ofChecked _

/-- The truth value of a condition. -/
theorem truth
    (value : Value) :
    Retains held node (fun _ => True) (Step.truth value) :=
  ofExcept _

/-- An abrupt completion goes on, and any other is an error. -/
theorem interrupted
    {post : α → Prop}
    {completion : Completion}
    (handsOn : completion.isAbrupt = true → node.Delivers completion) :
    Retains held node post
      (if completion.isAbrupt then MonadExcept.throw (.propagate completion)
      else Step.raise .notRunning) := by
  split
  · next abrupt => exact propagate (handsOn abrupt)
  · exact raise _

/-- The value a part has delivered. -/
theorem valueOf
    (handsOn : HandsOn node incoming) :
    Retains held node (fun _ => True) (Step.valueOf incoming) := by
  unfold Step.valueOf
  split
  · exact pure trivial
  · exact read _
  · exact interrupted (handsOn _ rfl)
  · exact raise _

/-- The cell a part has delivered. -/
theorem placeOf
    (handsOn : HandsOn node incoming) :
    Retains held node (fun _ => True) (Step.placeOf incoming) := by
  unfold Step.placeOf
  split
  · exact pure trivial
  · exact interrupted (handsOn _ rfl)
  · exact raise _

/-- What is abrupt goes on to the frame below. -/
theorem settle
    (handsOn : HandsOn node incoming) :
    Retains held node (fun _ => True) (Step.settle incoming) := by
  unfold Step.settle
  split
  · split
    · next abrupt => exact propagate (handsOn _ rfl abrupt)
    · exact pure trivial
  · exact pure trivial

/-- The truth value a condition has delivered. -/
theorem conditionOf
    (handsOn : HandsOn node incoming) :
    Retains held node (fun _ => True) (Step.conditionOf incoming) :=
  (valueOf handsOn).bind fun value _ => truth value

/-- The static type of an expression. -/
theorem typeOf
    (tree : Tree)
    (id : ExprId) :
    Retains held node (fun _ => True) (Step.typeOf tree id) :=
  (part _).bind fun _ _ => pure trivial

/-- An operand of a binary operator. -/
theorem operand
    (value : Value)
    (source target : Ty) :
    Retains held node (fun _ => True) (Step.operand value source target) := by
  unfold Step.operand
  split
  · exact pure trivial
  · exact convert _ _ _

/-- The activation of a frame. -/
theorem activationOf
    (frame : Frame) :
    Retains held node (fun activation => held[frame.act.toNat]? = some activation.outline)
      (Step.activationOf frame) := by
  refine get.bind fun memory same => ?_
  intro later outlines
  cases found : memory.activations[frame.act.toNat]? with
  | none => exact .fault outlines
  | some activation =>
      refine .ok outlines ?_
      rw [← same, Memory.outlines, List.getElem?_map, Array.getElem?_toList, found]
      rfl

/-- An activation is replaced by one with its outline. -/
theorem setActivation
    {position : Nat}
    {activation : Activation}
    (same : held[position]? = some activation.outline) :
    Retains held node (fun _ => True)
      (modify fun memory =>
        { memory with activations := memory.activations.setIfInBounds position activation }) := by
  rintro memory rfl
  exact .ok (Memory.outlines_replace same) trivial

/-- The activation of a function in which every variable is freshly declared. -/
theorem activationFor
    (function : FunctionDef)
    (id : FuncId)
    (this : Option ObjectId) :
    Retains held node (fun activation => activation.outline = ⟨some id, function.locals.length⟩)
      (Step.activationFor function id this) := by
  have placed :
      Retains held node (fun locals => locals.size = function.locals.length)
        (Step.allocate fun heap =>
          heap.addCells (function.locals.map fun entry => Cell.declared entry.ty)) :=
    allocateWith fun heap => by simp [Heap.size_addCells]
  exact placed.bind fun locals size => pure (by simp [Activation.outline, size])

/-- The store of an initial value. -/
theorem storeDeclared
    (cell : CellId)
    (value : Value)
    (source : Ty)
    (limits : Limits) :
    Retains held node (fun _ => True) (Step.storeDeclared cell value source limits) :=
  heap.bind fun _ _ => (ofExcept _).bind fun placed _ => (setHeap placed.2).bind fun _ _ =>
    store _ _ _

/-- Whether a loop goes on after its body. -/
theorem goesOn
    {label : Option String}
    (handsOn : HandsOn node incoming) :
    Retains held node (fun _ => True) (Step.goesOn label incoming) := by
  unfold Step.goesOn
  split
  · split
    · exact pure trivial
    · exact propagate (handsOn _ rfl rfl)
  · split
    · exact pure trivial
    · exact propagate (handsOn _ rfl rfl)
  · exact (settle handsOn).bind fun _ _ => pure trivial

/-- Whether a clause catches the exception held back. -/
theorem catches
    (clause : CatchClause)
    (tested : Value) :
    Retains held node (fun _ => True) (Step.catches frame clause tested) := by
  unfold Step.catches
  split
  · exact truth tested
  · split
    · exact pure trivial
    · exact pure trivial

end Retains

end Step

end BotScript
