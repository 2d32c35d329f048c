import BotScript.Proofs.StepOutcomes
import BotScript.Proofs.TypedOperators

namespace BotScript

/-!
# Steps of operators

The last step of the frame of an operator, and the store of a compound assignment, come to what
the types of the operator promise for operands of their static types.
-/

/-! ## Parts of the steps -/

namespace Step.Results

variable {before : Memory}

/-- The static type of an expression that the program has. -/
theorem typeOf
    {tree : Tree}
    {id : ExprId}
    {node : Expr}
    (found : tree.expr? id = some node) :
    Results before (Step.typeOf tree id) (.ok node.ty) before :=
  .bind (.part found) (.pure _)

/-- An operand is converted over the heap as it is. -/
theorem operand
    (operand : Operand)
    (common : Ty) :
    Results before (Step.operand operand.value operand.ty common)
      (outcomeOf (operand.converted before.world.heap common)) before := by
  unfold Step.operand Operand.converted
  split
  · exact .pure _
  · exact .bind .heap (.ofChecked _)

/-- A converted value that can be stored becomes that of the cell. -/
theorem store_converted
    {cell : CellId}
    {value result : Value}
    {source : Ty}
    (isStored : before.world.heap.convertWhile (some cell) value source
      (before.world.heap.cell cell).ty = .ok result) :
    Results before (Step.store cell value source) (.ok ())
      (before.withHeap (before.world.heap.setCell cell
        (.withValue (before.world.heap.cell cell).ty result))) := by
  refine .store ?_
  rw [Cell.stored, isStored]
  rfl

end Step.Results

/-! ## Binary operators -/

namespace Step

variable {setting : Setting} {memory : Memory} {frame : Frame} {id : ExprId} {place : Span}
  {demand : Demand}

/-- Operands are converted one after the other, and the result of the operation is used. -/
theorem operands_run
    {α : Type}
    (one other : Operand)
    (common : Ty)
    (operation : Value → Value → Except ErrorCode Value)
    (next : Value → Step α) :
    (do
      let value ← Step.operand one.value one.ty common
      let otherValue ← Step.operand other.value other.ty common
      next (← Step.ofExcept (operation value otherValue)) : Step α).run.run memory =
      (do
        let result ← Step.ofChecked (do
          let value ← one.converted memory.world.heap common
          let otherValue ← other.converted memory.world.heap common
          .ofExcept (operation value otherValue))
        next result : Step α).run.run memory := by
  have first := @Results.operand memory one common
  have second := @Results.operand memory other common
  cases isFirst : one.converted memory.world.heap common with
  | error fault =>
      rw [isFirst] at first
      exact first.stop
  | ok value =>
      rw [isFirst] at first
      refine first.run_bind.trans ?_
      cases isSecond : other.converted memory.world.heap common with
      | error fault =>
          rw [isSecond] at second
          exact second.stop
      | ok otherValue =>
          rw [isSecond] at second
          exact second.run_bind

/--
When the frame of a binary operator has both operands, the operator ends with a value of the
type of the expression, which is delivered, or as the operands make it end.
-/
theorem expression_binary
    {op : BinaryOp}
    {common result : Ty}
    {left right : ExprId}
    {leftNode rightNode : Expr}
    {first second : Value}
    (found : setting.tree.expr? id = some ⟨.binary op common left right, result, place⟩)
    (isLeft : setting.tree.expr? left = some leftNode)
    (isRight : setting.tree.expr? right = some rightNode)
    (fits : binaryTypes? op leftNode.ty rightNode.ty = some (common, result))
    (isLast : frame.state = 2)
    (isFirst : frame.values.getLast? = some first)
    (firstFits : Operand.Fits memory.world.heap ⟨first, leftNode.ty⟩)
    (secondFits : Operand.Fits memory.world.heap ⟨second, rightNode.ty⟩) :
    ∃ outcome,
      op.Ends memory.world.heap common result ⟨first, leftNode.ty⟩ ⟨second, rightNode.ty⟩ outcome ∧
        (Step.expression setting frame id demand (some (.value second))).run.run memory =
          (Step.ofChecked outcome >>= fun value => Step.produce value result demand).run.run
            memory := by
  obtain ⟨servesLeft, servesRight, -⟩ := binaryTypes?_serves fits
  refine ⟨_, BinaryOp.evaluate_ends fits firstFits secondFits, ?_⟩
  rw [BinaryOp.evaluate_swap firstFits secondFits servesLeft servesRight]
  unfold Step.expression
  rw [(Results.part found).run_bind]
  dsimp only
  rw [isLast]
  refine (Results.pure second).run_bind.trans ((Results.typeOf isRight).run_bind.trans ?_)
  have isType : Step.typeOf setting.tree left = pure leftNode.ty := by
    unfold Step.typeOf
    rw [isLeft]
    rfl
  rw [isFirst, isType]
  exact operands_run ⟨second, rightNode.ty⟩ ⟨first, leftNode.ty⟩ common
    (fun value otherValue => op.apply common otherValue value) _

/-! ## Compound assignments -/

/-- What a compound assignment has computed can be stored into its target. -/
theorem store_computed
    {cell : CellId}
    {source target : Ty}
    {value : Value}
    (isTarget : (memory.world.heap.cell cell).ty = target)
    (plain : value.isPlain source = true)
    (fits : source = target ∨ source.isNumeric = true ∧ target.isNumeric = true) :
    ∃ stored, memory.world.heap.Typed target stored ∧
      Results memory (Step.store cell value source) (.ok ())
        (memory.withHeap (memory.world.heap.setCell cell (.withValue target stored))) := by
  subst isTarget
  have converts : memory.world.heap.Converts value source (memory.world.heap.cell cell).ty :=
    Heap.converts_plain plain fits
  obtain ⟨stored, isStored, becomes⟩ := converts
  refine ⟨stored, becomes.typed, .store_converted ?_⟩
  rw [Heap.convertWhile_scalar (Value.refs_of_isPlain plain)]
  exact isStored

/--
A compound assignment stores a value of the type of its target, or it fails because its target
has no value yet, or as the operands make it fail; then nothing changes.
-/
theorem assignTo_compound
    {op : BinaryOp}
    {common target source : Ty}
    {cell : CellId}
    {assigned : Value}
    (fits : compoundOperand? op target source = some common)
    (isTarget : (memory.world.heap.cell cell).ty = target)
    (cellFits : (memory.world.heap.cell cell).state ≠ .undefined →
      Operand.Fits memory.world.heap ⟨(memory.world.heap.cell cell).value, target⟩)
    (assignedFits : Operand.Fits memory.world.heap ⟨assigned, source⟩) :
    (∃ stored, memory.world.heap.Typed target stored ∧
      Results memory (Step.assignTo cell (some op) common target source assigned) (.ok ())
        (memory.withHeap (memory.world.heap.setCell cell (.withValue target stored)))) ∨
    ((memory.world.heap.cell cell).state = .undefined ∧
      Results memory (Step.assignTo cell (some op) common target source assigned)
        (.error (.fault (.error .notInitialized))) memory) ∨
    ∃ fault,
      op.Ends memory.world.heap common common
          ⟨(memory.world.heap.cell cell).value, target⟩ ⟨assigned, source⟩ (.error fault) ∧
        Results memory (Step.assignTo cell (some op) common target source assigned)
          (.error (.fault fault)) memory := by
  obtain ⟨types, stays⟩ := compoundOperand?_types fits
  by_cases there : (memory.world.heap.cell cell).state = .undefined
  · refine .inr (.inl ⟨there, .stop (.bind .heap ?_)⟩)
    rw [Heap.read, Cell.get, there]
    rfl
  have current : Results memory (Step.read cell) (.ok (memory.world.heap.cell cell).value)
      memory := by
    refine .bind .heap ?_
    rw [Heap.read, Cell.get, if_neg (by simpa using there)]
    rfl
  have ends := op.evaluate_ends types (cellFits there) assignedFits
  have goesOn :
      (Step.assignTo cell (some op) common target source assigned).run.run memory =
        (Step.ofChecked (op.evaluate memory.world.heap common
            ⟨(memory.world.heap.cell cell).value, target⟩ ⟨assigned, source⟩) >>=
          fun value => Step.store cell value common).run.run memory :=
    current.run_bind.trans (operands_run ⟨(memory.world.heap.cell cell).value, target⟩
      ⟨assigned, source⟩ common (op.apply common) fun value => Step.store cell value common)
  cases isOutcome : op.evaluate memory.world.heap common
      ⟨(memory.world.heap.cell cell).value, target⟩ ⟨assigned, source⟩ with
  | error fault =>
      rw [isOutcome] at ends goesOn
      exact .inr (.inr ⟨fault, ends, goesOn⟩)
  | ok value =>
      rw [isOutcome] at goesOn
      have plain := BinaryOp.evaluate_plain isOutcome
      rw [← (binaryTypes?_types types).2] at plain
      obtain ⟨stored, typed, results⟩ := store_computed isTarget plain stays
      exact .inl ⟨stored, typed, goesOn.trans results⟩

/-! ## Prefix operators -/

/--
When the frame of a prefix operator has its operand, a value of the type of the expression is
delivered: the one of the operator for the operand converted to that type.  The sign of a code
point that is no integer of 32 bits is left out, which is delivered as it is.
-/
theorem expression_unary
    {op : UnaryOp}
    {target : Ty}
    {part : ExprId}
    {value : Value}
    (found : setting.tree.expr? id = some ⟨.unary op part, target, place⟩)
    (fits : Compile.unaryType? op (setting.tree.expr part).ty = some target)
    (isLast : frame.state = 1)
    (typed : memory.world.heap.Typed (setting.tree.expr part).ty value)
    (there : value ≠ .nan)
    (narrow : ¬ op.IsWide (setting.tree.expr part).ty value) :
    ∃ operand result,
      Tree.convertConstant value (setting.tree.expr part).ty target = .ok operand ∧
      op.apply target operand = .ok result ∧ memory.world.heap.Typed target result ∧
        (Step.expression setting frame id demand (some (.value value))).run.run memory =
          (Step.produce result target demand).run.run memory := by
  obtain ⟨operand, result, converts, applied, isResult, same⟩ :=
    UnaryOp.apply_converted fits typed there
  refine ⟨operand, result, converts, applied, isResult, ?_⟩
  unfold Step.expression
  rw [(Results.part found).run_bind]
  dsimp only
  rw [isLast]
  refine (Results.pure value).run_bind.trans ?_
  rw [same narrow]
  exact (Results.ofExcept (.ok result)).run_bind

end Step

end BotScript
