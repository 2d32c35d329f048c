import BotScript.Host.Workbench
import BotScript.Proofs.OutlineFrames
import Mathlib.Order.RelIso.Set

namespace BotScript

/-!
# What steps do to the host

Only natives change the host: every other part of a step leaves it alone.  So any
relation between hosts that lasts, and that the natives keep, holds between the hosts in
front of a step and behind it, whether or not the step fails.
-/

/-- The state behind a step is related to the one in front of it, also if the step fails. -/
class Steady {σ ε α : Type} (R : σ → σ → Prop) (step : ExceptT ε (StateM σ) α) : Prop where
  kept : ∀ before, R before (step.run.run before).2

namespace Steady

variable {σ ε α β : Type} {R : σ → σ → Prop} [lasts : IsPreorder σ R]

instance pure (value : α) : Steady R (Pure.pure value : ExceptT ε (StateM σ) α) where
  kept before := refl_of R before

instance throw (error : ε) : Steady R (throw error : ExceptT ε (StateM σ) α) where
  kept before := refl_of R before

instance get : Steady R (MonadState.get : ExceptT ε (StateM σ) σ) where
  kept before := refl_of R before

instance bind (step : ExceptT ε (StateM σ) α) (next : α → ExceptT ε (StateM σ) β)
    [first : Steady R step] [rest : ∀ value, Steady R (next value)] :
    Steady R (step >>= next) where
  kept before := by
    have taken := first.kept before
    simp only [ExceptT.run_bind, StateT.run_bind]
    revert taken
    generalize step.run.run before = reached
    obtain ⟨result, between⟩ := reached
    intro taken
    cases result with
    | ok value => exact trans_of R taken ((rest value).kept between)
    | error error => exact taken

/-- A step goes on with such steps. -/
theorem andThen
    {step : ExceptT ε (StateM σ) α}
    {next : α → ExceptT ε (StateM σ) β}
    [Steady R step]
    (rest : ∀ value, Steady R (next value)) :
    Steady R (step >>= next) :=
  bind step next

instance ite (condition : Prop) [Decidable condition]
    (whenTrue whenFalse : ExceptT ε (StateM σ) α)
    [Steady R whenTrue] [Steady R whenFalse] :
    Steady R (if condition then whenTrue else whenFalse) := by
  split <;> assumption

instance mapM (operation : α → ExceptT ε (StateM σ) β) [∀ item, Steady R (operation item)]
    (items : List α) :
    Steady R (items.mapM operation) := by
  induction items with
  | nil => exact pure _
  | cons item items inductionHypothesis =>
      rw [List.mapM_cons]
      infer_instance

end Steady

/-! ## Natives -/

/-- An action on the world that keeps a relation between hosts. -/
abbrev Action.SteadyHost {α : Type} (R : Host → Host → Prop) (action : Action α) : Prop :=
  Steady (Order.Preimage World.host R) action

/-- The natives of a registry keep a relation between hosts. -/
class Registry.SteadyHost (R : Host → Host → Prop) (registry : Registry) : Prop where
  natives : ∀ native ∈ registry.natives, ∀ call, (native.run call).SteadyHost R

/-- A native that a program calls keeps a relation between hosts. -/
theorem Registry.keeps_call
    {R : Host → Host → Prop}
    [IsPreorder Host R]
    {registry : Registry}
    [keeps : registry.SteadyHost R]
    (id : NativeId)
    (call : NativeCall) :
    (registry.call id call).SteadyHost R := by
  unfold Registry.call
  split
  · next native found => exact keeps.natives native (Array.mem_of_getElem? found) call
  · unfold Action.fail
    infer_instance

/-- A step of a machine that keeps a relation between hosts. -/
abbrev Step.SteadyHost {α : Type} (R : Host → Host → Prop) (step : Step α) : Prop :=
  Steady (Order.Preimage (fun memory : Memory => memory.world.host) R) step

namespace Step

open Steady (andThen)

variable {α : Type} {R : Host → Host → Prop} [IsPreorder Host R]

/-! ## Parts of steps -/

instance (code : ErrorCode) : SteadyHost R (raise code : Step α) := by
  unfold raise
  infer_instance

instance (result : Checked α) : SteadyHost R (ofChecked result) := by
  unfold ofChecked
  split <;> infer_instance

instance (result : Except ErrorCode α) : SteadyHost R (ofExcept result) := by
  unfold ofExcept
  infer_instance

instance (value : Option α) (code : ErrorCode) : SteadyHost R (require code value) := by
  unfold require
  split <;> infer_instance

instance (value : Option α) : SteadyHost R (part value) := by
  unfold part
  split <;> infer_instance

instance : SteadyHost R heap := by
  unfold heap
  infer_instance

instance (operation : Heap → α × Heap) : SteadyHost R (allocate operation) where
  kept _ := refl_of R _

instance (change : Heap → Heap) : SteadyHost R (modifyHeap change) := by
  unfold modifyHeap
  infer_instance

instance (heap : Heap) : SteadyHost R (setHeap heap) := by
  unfold setHeap
  infer_instance

/-- Only natives change the host. -/
theorem keep_ofAction
    {action : Action α}
    (keeps : action.SteadyHost R) :
    SteadyHost R (ofAction action) := by
  unfold ofAction
  exact @andThen _ _ _ _ _ _ _ _ ⟨fun memory => keeps.kept memory.world⟩ fun _ => inferInstance

instance (cell : CellId) : SteadyHost R (read cell) := by
  unfold read
  infer_instance

instance (id : CellId) (value : Value) (source : Ty) : SteadyHost R (store id value source) := by
  unfold store
  infer_instance

instance (value : Value) (source target : Ty) : SteadyHost R (convert value source target) := by
  unfold convert
  infer_instance

instance (value : Value) : SteadyHost R (truth value) := by
  unfold truth
  infer_instance

instance (incoming : Option Completion) : SteadyHost R (valueOf incoming) := by
  unfold valueOf
  split <;> infer_instance

instance (incoming : Option Completion) : SteadyHost R (placeOf incoming) := by
  unfold placeOf
  split <;> infer_instance

instance (incoming : Option Completion) : SteadyHost R (settle incoming) := by
  unfold settle
  split <;> infer_instance

instance (incoming : Option Completion) : SteadyHost R (conditionOf incoming) := by
  unfold conditionOf
  infer_instance

instance (cell : CellId) (demand : Demand) : SteadyHost R (deliver cell demand) := by
  unfold deliver
  split <;> infer_instance

instance (value : Value) (ty : Ty) (demand : Demand) : SteadyHost R (produce value ty demand) := by
  unfold produce
  split <;> infer_instance

instance (tree : Tree) (id : ExprId) : SteadyHost R (typeOf tree id) := by
  unfold typeOf
  infer_instance

instance (value : Value) (source target : Ty) : SteadyHost R (operand value source target) := by
  unfold operand
  infer_instance

instance (frame : Frame) : SteadyHost R (activationOf frame) := by
  unfold activationOf
  infer_instance

instance (setting : Setting) (activation : Activation) :
    SteadyHost R (pushActivation setting activation) := by
  have pushed :
      SteadyHost R (modify fun memory : Memory =>
        { memory with activations := memory.activations.push activation } : Step Unit) :=
    ⟨fun _ => refl_of R _⟩
  unfold pushActivation
  dsimp only
  infer_instance

instance (function : FunctionDef) (id : FuncId) (this : Option ObjectId) :
    SteadyHost R (activationFor function id this) := by
  unfold activationFor
  infer_instance

instance (cell : CellId) (value : Value) (source : Ty) (limits : Limits) :
    SteadyHost R (storeDeclared cell value source limits) := by
  unfold storeDeclared
  refine andThen fun heap => andThen fun bounded => ?_
  infer_instance

/-! ## Statements -/

instance : SteadyHost R done := by
  unfold done
  infer_instance

instance (label : Option String) (incoming : Option Completion) :
    SteadyHost R (goesOn label incoming) := by
  unfold goesOn
  split <;> infer_instance

instance (frame : Frame) (statements : List StmtId) :
    SteadyHost R (nextStatement frame statements) := by
  unfold nextStatement
  split <;> infer_instance

instance (tree : Tree) (frame : Frame) (slot : LocalSlot) (limits : Limits)
    (initial : Option ExprId) (incoming : Option Completion) :
    SteadyHost R (declare tree frame slot limits initial incoming) := by
  have placed (act : Nat) (slot : Nat) (activation : Activation) (cell : CellId) :
      SteadyHost R (modify fun memory : Memory =>
        { memory with
          activations := memory.activations.setIfInBounds act
            { activation with locals := activation.locals.setIfInBounds slot cell } } :
        Step Unit) :=
    ⟨fun _ => refl_of R _⟩
  unfold declare
  refine andThen fun activation => andThen fun former => andThen fun heap => ?_
  dsimp only
  split <;> infer_instance

instance (frame : Frame) (body : StmtId) (incoming : Option Completion) :
    SteadyHost R (forTested frame body incoming) := by
  unfold forTested
  dsimp only
  split <;> infer_instance

instance (frame : Frame) (condition : Option ExprId) (body : StmtId)
    (incoming : Option Completion) :
    SteadyHost R (forTest frame condition body incoming) := by
  unfold forTest
  split <;> infer_instance

instance (frame : Frame) (steps : List ExprId) : SteadyHost R (forSteps frame steps) := by
  unfold forSteps
  split <;> infer_instance

instance (frame : Frame) (label : Option String) (initial : List StmtId)
    (condition : Option ExprId) (steps : List ExprId) (body : StmtId)
    (incoming : Option Completion) :
    SteadyHost R (forLoop frame label initial condition steps body incoming) := by
  unfold forLoop
  split
  · refine andThen fun _ => ?_
    split <;> infer_instance
  all_goals infer_instance

instance (frame : Frame) (body : StmtId) : SteadyHost R (nextRound frame body) := by
  unfold nextRound
  infer_instance

instance (frame : Frame) (label : Option String) (count : ExprId) (body : StmtId)
    (incoming : Option Completion) :
    SteadyHost R (repeatLoop frame label count body incoming) := by
  unfold repeatLoop
  split
  · infer_instance
  · refine andThen fun rounds => ?_
    split <;> infer_instance
  all_goals infer_instance

instance (frame : Frame) (value : ExprId) (cases : List SwitchCase) (body : List StmtId)
    (incoming : Option Completion) :
    SteadyHost R (switchOn frame value cases body incoming) := by
  unfold switchOn
  split
  · infer_instance
  · refine andThen fun value => andThen fun selected => ?_
    dsimp only
    split <;> infer_instance
  · split <;> infer_instance

instance (value : Value) (span : Span) : SteadyHost R (thrown value span) := by
  unfold thrown
  infer_instance

/-! ## Try statements -/

instance (frame : Frame) (final : Option StmtId) : SteadyHost R (runFinal frame final) := by
  unfold runFinal
  split <;> infer_instance

instance (frame : Frame) (final : Option StmtId) (completion : Completion) :
    SteadyHost R (endWith frame final completion) := by
  unfold endWith
  infer_instance

instance (frame : Frame) (clauses : List CatchClause) :
    SteadyHost R (runHandler frame clauses) := by
  unfold runHandler
  infer_instance

instance (frame : Frame) (clauses : List CatchClause) (final : Option StmtId) :
    SteadyHost R (matchClause frame clauses final) := by
  unfold matchClause
  split <;> infer_instance

instance (frame : Frame) (clauses : List CatchClause) (final : Option StmtId)
    (error : RuntimeError) :
    SteadyHost R (matchFirst frame clauses final error) := by
  unfold matchFirst
  infer_instance

instance (frame : Frame) (body : List StmtId) (final : Option StmtId) :
    SteadyHost R (nextGuarded frame body final) := by
  unfold nextGuarded
  split <;> infer_instance

instance (frame : Frame) (clauses : List CatchClause) (otherwise : Frame → Step Move)
    [∀ frame, SteadyHost R (otherwise frame)] :
    SteadyHost R (poll frame clauses otherwise) := by
  unfold poll
  split <;> infer_instance

instance (frame : Frame) (body : List StmtId) (clauses : List CatchClause)
    (final : Option StmtId) (incoming : Option Completion) :
    SteadyHost R (bodyEnded frame body clauses final incoming) := by
  unfold bodyEnded
  split <;> infer_instance

instance (frame : Frame) (clause : CatchClause) (tested : Value) :
    SteadyHost R (catches frame clause tested) := by
  unfold catches
  split
  · infer_instance
  · split <;> infer_instance

instance (frame : Frame) (clauses : List CatchClause) (final : Option StmtId)
    (incoming : Option Completion) :
    SteadyHost R (matchEnded frame clauses final incoming) := by
  unfold matchEnded
  split <;> infer_instance

instance (frame : Frame) (body : List StmtId) (clauses : List CatchClause)
    (final : Option StmtId) (incoming : Option Completion) :
    SteadyHost R (pollEnded frame body clauses final incoming) := by
  unfold pollEnded
  split <;> infer_instance

instance (frame : Frame) (body : List StmtId) (clauses : List CatchClause)
    (final : Option StmtId) (incoming : Option Completion) :
    SteadyHost R (guarded frame body clauses final incoming) := by
  unfold guarded
  split <;> infer_instance

instance (setting : Setting) (frame : Frame) (node : Stmt) (incoming : Option Completion) :
    SteadyHost R (entered setting frame node incoming) := by
  unfold entered
  dsimp only
  split
  · split <;> infer_instance
  · infer_instance
  · infer_instance
  · split
    · infer_instance
    · refine andThen fun holds => ?_
      split <;> infer_instance
    · infer_instance
  · split <;> infer_instance
  · split <;> infer_instance
  · infer_instance
  · infer_instance
  · infer_instance
  · infer_instance
  · infer_instance
  · infer_instance
  · split <;> infer_instance
  · split <;> infer_instance
  · infer_instance

instance (setting : Setting) (frame : Frame) (id : StmtId) (incoming : Option Completion) :
    SteadyHost R (statement setting frame id incoming) := by
  unfold statement
  split <;> infer_instance

/-! ## Calls -/

section Calls

variable {setting : Setting} [natives : setting.registry.SteadyHost R]

instance (frame : Frame) (arguments : List ExprId) (incoming : Option Completion) :
    SteadyHost R (collect frame arguments incoming) := by
  have chosen (values : List Value) :
      SteadyHost R (collect { frame with values } arguments none) := by
    unfold collect
    simp only [pure_bind]
    split <;> infer_instance
  cases incoming with
  | none => exact chosen frame.values
  | some completion =>
      exact andThen fun value => chosen (frame.values ++ [value])

instance (value : Option Value) : SteadyHost R (receiver value) := by
  unfold receiver
  split <;> infer_instance

instance (tree : Tree) (params : List Param) (arguments : List ExprId) (values : List Value)
    (locals : Array CellId) :
    SteadyHost R (bindParams tree params arguments values locals) := by
  fun_induction bindParams tree params arguments values locals with
  | case1 => infer_instance
  | case2 => infer_instance

instance (id : FuncId) (this : Option ObjectId) (arguments : List ExprId)
    (values : List Value) :
    SteadyHost R (bind setting id this arguments values) := by
  unfold bind
  infer_instance

instance (id : NativeId) (this : Option ObjectId) (arguments : List ExprId)
    (values : List Value) :
    SteadyHost R (callNative setting id this arguments values) := by
  unfold callNative
  exact andThen fun types => keep_ofAction (Registry.keeps_call id _)

instance (frame : Frame) (id : FuncId) (arguments : List ExprId) (ty : Ty) (demand : Demand)
    (incoming : Option Completion) :
    SteadyHost R (call setting frame id arguments ty demand incoming) := by
  unfold call
  split
  · refine andThen fun collected => ?_
    split <;> infer_instance
  · infer_instance

instance (frame : Frame) (id : NativeId) (arguments : List ExprId) (ty : Ty)
    (demand : Demand) (incoming : Option Completion) :
    SteadyHost R (nativeCall setting frame id arguments ty demand incoming) := by
  unfold nativeCall
  refine andThen fun collected => ?_
  split <;> infer_instance

instance (frame : Frame) (slot : Option MethodSlot) (target : MethodImpl)
    (arguments : List ExprId) (ty : Ty) (demand : Demand) :
    SteadyHost R (invoke setting frame slot target arguments ty demand) := by
  unfold invoke
  refine andThen fun this => ?_
  dsimp only
  split <;> infer_instance

instance (frame : Frame) (object : ExprId) (slot : Option MethodSlot) (target : MethodImpl)
    (arguments : List ExprId) (ty : Ty) (demand : Demand) (incoming : Option Completion) :
    SteadyHost R (methodCall setting frame object slot target arguments ty demand incoming) := by
  unfold methodCall
  split
  · infer_instance
  · refine andThen fun collected => ?_
    split <;> infer_instance
  · infer_instance

instance (frame : Frame) (constructor : Option MethodImpl) (arguments : List ExprId) (ty : Ty)
    (demand : Demand) :
    SteadyHost R (construct setting frame constructor arguments ty demand) := by
  unfold construct
  refine andThen fun last => andThen fun this => ?_
  dsimp only
  split <;> infer_instance

instance (frame : Frame) (owner : ClassId) (constructor : Option MethodImpl)
    (arguments : List ExprId) (ty : Ty) (demand : Demand) (incoming : Option Completion) :
    SteadyHost R (newInstance setting frame owner constructor arguments ty demand incoming) := by
  unfold newInstance
  split
  · refine andThen fun collected => ?_
    split <;> infer_instance
  · infer_instance
  · infer_instance

/-! ## Expressions -/

instance (holder : CellId) : SteadyHost R (arrayForWrite holder) := by
  unfold arrayForWrite
  refine andThen fun heap => ?_
  dsimp only
  split <;> infer_instance

instance (incoming : Option Completion) : SteadyHost R (indexOf incoming) := by
  unfold indexOf
  refine andThen fun value => ?_
  split <;> infer_instance

instance (frame : Frame) (demand : Demand) (incoming : Option Completion) :
    SteadyHost R (element frame demand incoming) := by
  unfold element
  refine andThen fun position => ?_
  split
  · refine andThen fun holder => andThen fun array => andThen fun heap => andThen fun _ => ?_
    infer_instance
  · split <;> infer_instance

instance (cell : CellId) (op : Option BinaryOp) (common ty source : Ty) (assigned : Value) :
    SteadyHost R (assignTo cell op common ty source assigned) := by
  unfold assignTo
  split <;> infer_instance

instance (tree : Tree) (frame : Frame) (items : List ExprId) (ty : Ty) (demand : Demand)
    (incoming : Option Completion) :
    SteadyHost R (arrayLiteral tree frame items ty demand incoming) := by
  unfold arrayLiteral
  refine andThen fun element => ?_
  dsimp only
  split
  · refine andThen fun values => ?_
    split
    · infer_instance
    · split <;> infer_instance
  · refine andThen fun item => andThen fun id => andThen fun source => andThen fun result =>
      andThen fun values => ?_
    split
    · infer_instance
    · split <;> infer_instance

instance (frame : Frame) (id : ExprId) (demand : Demand) (incoming : Option Completion) :
    SteadyHost R (expression setting frame id demand incoming) := by
  unfold expression
  refine andThen fun node => ?_
  dsimp only
  split
  · infer_instance
  · infer_instance
  · infer_instance
  · split <;> infer_instance
  · infer_instance
  · split <;> infer_instance
  · split <;> infer_instance
  · split <;> infer_instance
  · split <;> infer_instance
  · split <;> infer_instance
  · split <;> infer_instance
  · split <;> infer_instance
  · infer_instance
  · infer_instance
  · infer_instance
  · infer_instance
  · infer_instance

/-! ## Functions, the root and field values -/

instance (frame : Frame) (entry : FuncId) : SteadyHost R (callEntry setting frame entry) := by
  unfold callEntry
  infer_instance

instance (frame : Frame) (entry : FuncId) : SteadyHost R (startNext setting frame entry) := by
  unfold startNext
  dsimp only
  split <;> infer_instance

instance (frame : Frame) (value : Value) : SteadyHost R (storeStatic setting frame value) := by
  unfold storeStatic
  infer_instance

instance (frame : Frame) (entry : FuncId) (incoming : Option Completion) :
    SteadyHost R (start setting frame entry incoming) := by
  unfold start
  split <;> infer_instance

instance (frame : Frame) (id : FuncId) (incoming : Option Completion) :
    SteadyHost R (function setting frame id incoming) := by
  unfold function
  refine andThen fun function => ?_
  split
  · infer_instance
  · split <;> infer_instance

instance (this : ObjectId) (frame : Frame) (fields : List FieldDef) :
    SteadyHost R (setupFrom this frame fields) := by
  induction fields generalizing frame with
  | nil =>
      unfold setupFrom
      infer_instance
  | cons field rest inductionHypothesis =>
      unfold setupFrom
      split
      · infer_instance
      · dsimp only
        split <;> infer_instance

instance (tree : Tree) (this : ObjectId) (frame : Frame) (fields : List FieldDef)
    (value : Value) :
    SteadyHost R (storeField tree this frame fields value) := by
  unfold storeField
  infer_instance

instance (frame : Frame) (owner : ClassId) (incoming : Option Completion) :
    SteadyHost R (fieldSetup setting frame owner incoming) := by
  unfold fieldSetup
  refine andThen fun _ => ?_
  dsimp only
  refine andThen fun activation => andThen fun this => ?_
  split <;> infer_instance

instance (frame : Frame) (incoming : Option Completion) :
    SteadyHost R (ofFrame setting frame incoming) := by
  unfold ofFrame
  split <;> infer_instance

/-- What the natives keep is kept by the step of any frame. -/
theorem host_ofFrame (frame : Frame) (incoming : Option Completion) (memory : Memory) :
    R memory.world.host ((ofFrame setting frame incoming).run.run memory).2.world.host :=
  Steady.kept (R := Order.Preimage (fun memory : Memory => memory.world.host) R) memory

end Calls

end Step

end BotScript
