import BotScript.Machine.Expression

namespace BotScript

/-!
# What single steps result in

A step has an outcome, which is a result or an interrupt, and it leaves a memory.  Both follow
from the outcomes of its parts; these are given here for parts that read and change the heap.
-/

/-- A memory with another heap. -/
def Memory.withHeap (memory : Memory) (heap : Heap) : Memory :=
  ⟨⟨heap, memory.world.host⟩, memory.activations, memory.statics⟩

namespace Step

variable {α β : Type} {before between after : Memory}

/-- A step over a memory has an outcome and leaves a memory. -/
def Results
    (before : Memory) (step : Step α) (outcome : Except Interrupt α) (after : Memory) : Prop :=
  step.run.run before = (outcome, after)

/-- The outcome of an operation that can fail, as that of a step. -/
def outcomeOf : Checked α → Except Interrupt α
  | .ok value => .ok value
  | .error fault => .error (.fault fault)

namespace Results

/-- A result that needs no step. -/
theorem pure (value : α) : Results before (Pure.pure value) (.ok value) before :=
  rfl

/-- What follows a step with a result goes on with the result. -/
theorem run_bind
    {first : Step α}
    {next : α → Step β}
    {middle : α}
    (taken : Results before first (.ok middle) between) :
    (first >>= next).run.run before = (next middle).run.run between := by
  unfold Results at taken
  rw [ExceptT.run_bind, StateT.run_bind, taken]
  rfl

/-- A step with a result, and what follows it. -/
theorem bind
    {first : Step α}
    {next : α → Step β}
    {middle : α}
    {outcome : Except Interrupt β}
    (taken : Results before first (.ok middle) between)
    (rest : Results between (next middle) outcome after) :
    Results before (first >>= next) outcome after :=
  taken.run_bind.trans rest

/-- Nothing follows a step that is interrupted. -/
theorem stop
    {first : Step α}
    {next : α → Step β}
    {interrupt : Interrupt}
    (taken : Results before first (.error interrupt) after) :
    Results before (first >>= next) (.error interrupt) after := by
  unfold Results at taken ⊢
  rw [ExceptT.run_bind, StateT.run_bind, taken]
  rfl

/-- The current heap. -/
theorem heap : Results before Step.heap (.ok before.world.heap) before :=
  rfl

/-- An operation that changes the heap. -/
theorem allocate
    (operation : Heap → α × Heap) :
    Results before (Step.allocate operation) (.ok (operation before.world.heap).1)
      (before.withHeap (operation before.world.heap).2) :=
  rfl

/-- The outcome of an operation that can fail with a fault. -/
theorem ofChecked
    (result : Checked α) :
    Results before (Step.ofChecked result) (outcomeOf result) before := by
  cases result <;> rfl

/-- The outcome of an operation that can fail with an error. -/
theorem ofExcept
    (result : Except ErrorCode α) :
    Results before (Step.ofExcept result) (outcomeOf (.ofExcept result)) before :=
  ofChecked _

/-- A value that is there. -/
theorem require
    {code : ErrorCode}
    {found : Option α}
    {value : α}
    (isFound : found = some value) :
    Results before (Step.require code found) (.ok value) before := by
  subst isFound
  rfl

/-- A part that the program has. -/
theorem part
    {found : Option α}
    {value : α}
    (isFound : found = some value) :
    Results before (Step.part found) (.ok value) before := by
  subst isFound
  rfl

/-- What can be stored into a cell becomes its content. -/
theorem store
    {cell : CellId}
    {value : Value}
    {source : Ty}
    {content : Cell}
    (isStored :
      (before.world.heap.cell cell).stored before.world.heap (some cell) value source =
        .ok content) :
    Results before (Step.store cell value source) (.ok ())
      (before.withHeap (before.world.heap.setCell cell content)) := by
  refine .bind .heap ?_
  rw [isStored]
  exact .bind (.pure _) (.allocate _)

end Results

end Step

end BotScript
