import BotScript.Proofs.HeapSoundness
import BotScript.Machine.Setup
import BotScript.Proofs.Lockstep

namespace BotScript

/-!
# Steps over sound memories

A memory is sound when everything that its heap, its activations and its static
fields refer to exists.  A step keeps a memory sound and never gives up a part
of the heap; what it delivers refers to what exists by then.  The move of a
frame leaves frames that a snapshot accepts.
-/

open Restored (Bounds)

/-- What an activation refers to exists, and it has a cell for each variable. -/
structure Activation.Sound (tree : Tree) (bounds : Bounds) (activation : Activation) :
    Prop where
  refs : bounds.Cover activation.refs
  locals : ∀ id, activation.function = some id →
    ∃ function, tree.function? id = some function ∧
      function.locals.length = activation.locals.size

/-- A variable of an activation. -/
theorem Activation.Sound.local
    {tree : Tree}
    {bounds : Bounds}
    {activation : Activation}
    (sound : activation.Sound tree bounds)
    {index : Nat}
    {cell : CellId}
    (found : activation.locals[index]? = some cell) :
    cell.index < bounds.cells := by
  have refs := sound.refs
  simp only [Activation.refs, Bounds.cover_append, Bounds.cover_cells,
    Array.mem_toList_iff] at refs
  exact refs.2 cell (Array.mem_of_getElem? found)

/-- The receiver of an activation. -/
theorem Activation.Sound.receiver
    {tree : Tree}
    {bounds : Bounds}
    {activation : Activation}
    (sound : activation.Sound tree bounds) :
    bounds.Cover ((activation.this.map Value.object).getD .null).refs := by
  have refs := sound.refs
  simp only [Activation.refs, Bounds.cover_append] at refs
  cases this : activation.this with
  | none => exact Bounds.cover_nil
  | some object => simpa [this, Value.refs] using refs.1

/-- How many parts of each kind the heap of a memory has. -/
def Memory.bounds (memory : Memory) : Bounds :=
  memory.world.heap.bounds

/-- Everything that a memory refers to exists and has its shape. -/
structure Memory.Sound (tree : Tree) (memory : Memory) : Prop where
  heap : memory.world.heap.Sound tree
  statics : ∀ fields ∈ memory.statics, ∀ cell ∈ fields, cell.index < memory.bounds.cells
  staticShape :
    memory.statics.toList.map Array.size =
      tree.classes.toList.map fun owner => owner.statics.length
  activations : ∀ activation ∈ memory.activations, activation.Sound tree memory.bounds

/-- The cell of a static field. -/
theorem Memory.Sound.static
    {tree : Tree}
    {memory : Memory}
    (sound : memory.Sound tree)
    {owner index : Nat}
    {cell : CellId}
    (found : ((memory.statics[owner]?).getD #[])[index]? = some cell) :
    cell.index < memory.bounds.cells := by
  cases fields : memory.statics[owner]? with
  | none => simp [fields] at found
  | some cells =>
      rw [fields, Option.getD_some] at found
      exact sound.statics cells (Array.mem_of_getElem? fields) cell (Array.mem_of_getElem? found)

/-- A memory becomes a sound memory with the same number of activations. -/
structure Memory.Becomes (tree : Tree) (before after : Memory) : Prop where
  sound : after.Sound tree
  grown : before.bounds ≤ after.bounds
  height : after.activations.size = before.activations.size

/-- What an interruption refers to exists. -/
def Interrupt.Covered (bounds : Bounds) : Interrupt → Prop
  | .fault _ => True
  | .propagate completion => bounds.Cover completion.refs

/-- What a frame has in common with the frame it goes back to, and that its parts exist. -/
def Frame.Stands (bounds : Bounds) (frame origin : Frame) : Prop :=
  frame.node = origin.node ∧ frame.act = origin.act ∧ bounds.Cover frame.refs

/-- Whether a frame is at a step that its node has. -/
def Frame.WithinStates (tree : Tree) (frame : Frame) : Prop :=
  ∀ last, frame.node.lastState? tree = some last → frame.state ≤ last

/--
The move of a frame from one memory to another.  A frame stays at a step of its
node, and the activation of a frame on top of it is a new one, on top of all
others, or that of the frame.
-/
def Move.Fits (tree : Tree) (origin : Frame) (before after : Memory) : Move → Prop
  | .push frame child =>
      frame.Stands after.bounds origin ∧ frame.WithinStates tree ∧
        (origin.node.lastState? tree).isSome ∧
        child = .enter child.node child.act ∧
        if child.node.ownsActivation then
          after.activations.size = before.activations.size + 1 ∧
            child.act.toNat = before.activations.size
        else
          after.activations.size = before.activations.size ∧ child.act = origin.act
  | .tick frame =>
      frame.Stands after.bounds origin ∧ frame.WithinStates tree ∧
        (∃ id, origin.node = .statement id) ∧
        after.activations.size = before.activations.size
  | .complete completion =>
      after.bounds.Cover completion.refs ∧
        after.activations.size = before.activations.size

/-- The layout of a class is kept under the identifier of the class. -/
theorem Tree.layout?_id
    {tree : Tree}
    {owner : ClassId}
    {layout : ClassLayout}
    (found : tree.layout? owner = some layout) :
    tree.layout? layout.id = some layout := by
  obtain ⟨entry, -, rfl⟩ := Option.map_eq_some_iff.mp found
  exact found

namespace Step

/-- What a step over a memory leads to: a sound memory, and a result that meets a condition. -/
inductive Kept {α : Type} (tree : Tree) (before : Memory) (post : Bounds → α → Prop) :
    Except Interrupt α × Memory → Prop where
  | ok
      {value : α}
      {after : Memory} :
      before.Becomes tree after →
      post after.bounds value →
      Kept tree before post (.ok value, after)
  | error
      {interrupt : Interrupt}
      {after : Memory} :
      before.Becomes tree after →
      interrupt.Covered after.bounds →
      Kept tree before post (.error interrupt, after)

/-- A step over sound memories of a size keeps them sound. -/
def Keeps {α : Type} (tree : Tree) (floor : Bounds) (post : Bounds → α → Prop) (step : Step α) :
    Prop :=
  ∀ memory : Memory, memory.Sound tree → memory.bounds = floor →
    Kept tree memory post (step.run.run memory)

/-- What the step of a frame leads to: a sound memory, and a move that fits. -/
inductive Played (tree : Tree) (origin : Frame) (before : Memory) :
    Except Interrupt Move × Memory → Prop where
  | ok
      {move : Move}
      {after : Memory} :
      after.Sound tree →
      before.bounds ≤ after.bounds →
      move.Fits tree origin before after →
      Played tree origin before (.ok move, after)
  | error
      {interrupt : Interrupt}
      {after : Memory} :
      before.Becomes tree after →
      interrupt.Covered after.bounds →
      Played tree origin before (.error interrupt, after)

/-- The step of a frame over sound memories of a size keeps them sound. -/
def Plays (tree : Tree) (floor : Bounds) (origin : Frame) (step : Step Move) : Prop :=
  ∀ memory : Memory, memory.Sound tree → memory.bounds = floor →
    Played tree origin memory (step.run.run memory)

/-- The size of the heap stays the same, and the result meets a condition. -/
def Still {α : Type} (floor : Bounds) (condition : α → Prop) (later : Bounds) (value : α) :
    Prop :=
  floor = later ∧ condition value

end Step

section

variable {tree : Tree} {memory : Memory}

/-- What a sound memory is when nothing happens. -/
theorem Memory.Sound.becomes (sound : memory.Sound tree) : memory.Becomes tree memory :=
  ⟨sound, le_rfl, rfl⟩

/-- What a memory becomes twice. -/
theorem Memory.Becomes.trans
    {first second third : Memory}
    (becomes : first.Becomes tree second)
    (later : second.Becomes tree third) :
    first.Becomes tree third :=
  ⟨later.sound, le_trans becomes.grown later.grown, later.height.trans becomes.height⟩

/-- An activation stays sound while the heap grows. -/
theorem Activation.Sound.mono
    {bounds later : Bounds}
    {activation : Activation}
    (sound : activation.Sound tree bounds)
    (grown : bounds ≤ later) :
    activation.Sound tree later :=
  ⟨sound.refs.mono grown, sound.locals⟩

/-- A memory over what its world becomes. -/
theorem Memory.Sound.withWorld
    (sound : memory.Sound tree)
    {world : World}
    (becomes : memory.world.heap.Becomes tree world.heap) :
    memory.Becomes tree { memory with world } :=
  ⟨⟨becomes.sound,
      fun fields member cell cellMember =>
        Nat.lt_of_lt_of_le (sound.statics fields member cell cellMember) becomes.grown.cells,
      sound.staticShape,
      fun activation member => (sound.activations activation member).mono becomes.grown⟩,
    becomes.grown, rfl⟩

end

namespace Step

variable {tree : Tree} {floor : Bounds} {α β : Type}

/-- What is kept behind what was kept before. -/
theorem Kept.behind
    {first second : Memory}
    {post : Bounds → α → Prop}
    {outcome : Except Interrupt α × Memory}
    (kept : Kept tree second post outcome)
    (becomes : first.Becomes tree second) :
    Kept tree first post outcome := by
  cases kept with
  | ok later holds => exact .ok (becomes.trans later) holds
  | error later covered => exact .error (becomes.trans later) covered

namespace Keeps

/-- A step that does nothing. -/
theorem pure
    {post : Bounds → α → Prop}
    {value : α}
    (holds : post floor value) :
    Keeps tree floor post (Pure.pure value) := by
  rintro memory sound rfl
  exact .ok sound.becomes holds

/-- A step and what follows it. -/
theorem bind
    {post : Bounds → α → Prop}
    {result : Bounds → β → Prop}
    {step : Step α}
    {next : α → Step β}
    (keeps : Keeps tree floor post step)
    (continued : ∀ later value,
      floor ≤ later → post later value → Keeps tree later result (next value)) :
    Keeps tree floor result (step >>= next) := by
  intro memory sound size
  have kept := keeps memory sound size
  simp only [ExceptT.run_bind, StateT.run_bind]
  revert kept
  generalize step.run.run memory = reached
  intro kept
  cases kept with
  | error becomes covered => exact .error becomes covered
  | ok becomes holds =>
      have rest := continued _ _ (size ▸ becomes.grown) holds _ becomes.sound rfl
      exact rest.behind becomes

/-- A step whose result meets a weaker condition. -/
theorem weaken
    {post weaker : Bounds → α → Prop}
    {step : Step α}
    (keeps : Keeps tree floor post step)
    (implied : ∀ later value, post later value → weaker later value) :
    Keeps tree floor weaker step := by
  intro memory sound size
  have kept := keeps memory sound size
  revert kept
  generalize step.run.run memory = reached
  intro kept
  cases kept with
  | ok becomes holds => exact .ok becomes (implied _ _ holds)
  | error becomes covered => exact .error becomes covered

/-- An interruption. -/
theorem throw
    {post : Bounds → α → Prop}
    {interrupt : Interrupt}
    (covered : interrupt.Covered floor) :
    Keeps tree floor post (MonadExcept.throw interrupt) := by
  rintro memory sound rfl
  exact .error sound.becomes covered

/-- An error. -/
theorem raise
    {P : Bounds → α → Prop}
    (code : ErrorCode) :
    Keeps tree floor P (Step.raise code) :=
  throw trivial

/-- A checked result. -/
theorem ofChecked
    {condition : α → Prop}
    {result : Checked α}
    (holds : ∀ value, result = .ok value → condition value) :
    Keeps tree floor (Still floor condition) (Step.ofChecked result) := by
  cases result with
  | ok value => exact pure ⟨rfl, holds value rfl⟩
  | error fault => exact throw trivial

/-- A result that can be an error. -/
theorem ofExcept
    {condition : α → Prop}
    {result : Except ErrorCode α}
    (holds : ∀ value, result = .ok value → condition value) :
    Keeps tree floor (Still floor condition) (Step.ofExcept result) := by
  cases result with
  | ok value => exact pure ⟨rfl, holds value rfl⟩
  | error code => exact throw trivial

/-- A value that must be there. -/
theorem require
    (code : ErrorCode)
    (value : Option α) :
    Keeps tree floor (Still floor fun found => value = some found)
      (Step.require code value) := by
  cases value with
  | none => exact raise code
  | some value => exact pure ⟨rfl, rfl⟩

/-- A part of the program. -/
theorem part
    (value : Option α) :
    Keeps tree floor (Still floor fun found => value = some found) (Step.part value) := by
  cases value with
  | none => exact throw trivial
  | some value => exact pure ⟨rfl, rfl⟩

/-- The current memory. -/
theorem get :
    Keeps tree floor
      (Still floor fun memory => memory.Sound tree ∧ memory.bounds = floor)
      MonadState.get := by
  rintro memory sound rfl
  exact .ok sound.becomes ⟨rfl, sound, rfl⟩

/-- The current heap. -/
theorem heap :
    Keeps tree floor
      (Still floor fun heap => heap.Sound tree ∧ heap.bounds = floor)
      Step.heap := by
  rintro memory sound rfl
  exact .ok sound.becomes ⟨rfl, sound.heap, rfl⟩

/-- An operation on the heap. -/
theorem allocate
    {post : Bounds → α → Prop}
    {operation : Heap → α × Heap}
    (becomes : ∀ heap : Heap, heap.Sound tree → heap.bounds = floor →
      heap.Becomes tree (operation heap).2 ∧
        post (operation heap).2.bounds (operation heap).1) :
    Keeps tree floor post (Step.allocate operation) := by
  rintro memory sound rfl
  obtain ⟨grown, holds⟩ := becomes _ sound.heap rfl
  exact .ok (sound.withWorld (by exact grown)) holds

/-- A new cell. -/
theorem addCell
    {cell : Cell}
    (covered : floor.Cover cell.value.refs) :
    Keeps tree floor (fun later id => id.index < later.cells)
      (Step.allocate fun heap => heap.addCell cell) :=
  allocate fun _ sound size => sound.addCell (size ▸ covered)

/-- A variable declared without a value. -/
theorem freshCell
    (ty : Ty)
    (limits : Limits) :
    Keeps tree floor (fun later content => later.Cover content.value.refs)
      (Step.allocate fun heap => heap.freshCell ty limits) :=
  allocate fun _ sound _ => sound.freshCell ty limits

/-- A new array. -/
theorem addArray
    {array : ArrayData}
    (arraySound : array.Sound floor) :
    Keeps tree floor (fun later id => id.index < later.arrays)
      (Step.allocate fun heap => heap.addArray array) :=
  allocate fun _ sound size => sound.addArray (size ▸ arraySound)

/-- Several new cells. -/
theorem addCells
    {cells : List Cell}
    (covered : ∀ cell ∈ cells, floor.Cover cell.value.refs) :
    Keeps tree floor
      (fun later ids => (∀ id ∈ ids, id.index < later.cells) ∧ ids.size = cells.length)
      (Step.allocate fun heap => heap.addCells cells) :=
  allocate fun _ sound size => sound.addCells (by rwa [size])

/-- A new cell of a variable declared without a value. -/
theorem addFresh
    (ty : Ty)
    (limits : Limits) :
    Keeps tree floor (fun later id => id.index < later.cells)
      (Step.allocate fun heap => heap.addFresh ty limits) :=
  allocate fun _ sound _ => sound.addFresh ty limits

/-- A new instance of a class. -/
theorem newInstance
    {owner : ClassId}
    {layout : ClassLayout}
    (found : tree.layout? owner = some layout) :
    Keeps tree floor (fun later id => id.index < later.objects)
      (Step.allocate fun heap => heap.newInstance layout) :=
  allocate fun _ sound _ => sound.newInstance (tree.layout?_id found)

/-- A change of the heap that keeps its size. -/
theorem modifyHeap
    {change : Heap → Heap}
    (becomes : ∀ heap : Heap, heap.Sound tree → heap.bounds = floor →
      (change heap).Sound tree ∧ (change heap).bounds = heap.bounds) :
    Keeps tree floor (Still floor fun _ => True) (Step.modifyHeap change) := by
  refine allocate fun heap sound size => ?_
  obtain ⟨changed, same⟩ := becomes heap sound size
  exact ⟨⟨changed, same.ge⟩, (same.trans size).symm, trivial⟩

/-- A replaced heap. -/
theorem setHeap
    {before after : Heap}
    (becomes : before.Becomes tree after) :
    Keeps tree before.bounds (fun later _ => later = after.bounds) (Step.setHeap after) :=
  @allocate _ _ _ _ (fun _ => ((), after)) fun _ _ size =>
    ⟨⟨becomes.sound, size.trans_le becomes.grown⟩, rfl⟩

/-- The value of a cell. -/
theorem read
    (cell : CellId) :
    Keeps tree floor (Still floor fun value => floor.Cover value.refs) (Step.read cell) := by
  refine heap.bind ?_
  rintro _ heap - ⟨rfl, sound, rfl⟩
  exact ofExcept fun value found => sound.read found

/-- A store into a cell. -/
theorem store
    {cell : CellId}
    {value : Value}
    (covered : floor.Cover value.refs)
    (source : Ty) :
    Keeps tree floor (Still floor fun _ => True) (Step.store cell value source) := by
  refine heap.bind ?_
  rintro _ heap - ⟨rfl, sound, rfl⟩
  refine (ofChecked fun content stored => Cell.stored_cover covered stored).bind ?_
  rintro _ content - ⟨rfl, held⟩
  exact modifyHeap fun later laterSound size => laterSound.setCell cell (size ▸ held)

/-- A converted value. -/
theorem convert
    {value : Value}
    (covered : floor.Cover value.refs)
    (source target : Ty) :
    Keeps tree floor (Still floor fun value => floor.Cover value.refs)
      (Step.convert value source target) := by
  refine heap.bind ?_
  rintro _ heap - ⟨rfl, -, -⟩
  exact ofChecked fun result converted => Heap.convertWhile_cover covered converted

/-- The truth value of a condition. -/
theorem truth
    (value : Value) :
    Keeps tree floor (Still floor fun _ => True) (Step.truth value) :=
  ofExcept fun _ _ => trivial

/-- An abrupt completion goes on, and any other is an error. -/
theorem interrupted
    {post : Bounds → α → Prop}
    {completion : Completion}
    (covered : floor.Cover completion.refs) :
    Keeps tree floor post
      (if completion.isAbrupt then MonadExcept.throw (.propagate completion)
      else Step.raise .notRunning) := by
  split
  · exact throw covered
  · exact raise _

/-- The value a part has delivered. -/
theorem valueOf
    {incoming : Option Completion}
    (covered : floor.Cover (incoming.toList.flatMap Completion.refs)) :
    Keeps tree floor (Still floor fun value => floor.Cover value.refs)
      (Step.valueOf incoming) := by
  match incoming with
  | none => exact raise _
  | some (.value value) => exact pure ⟨rfl, by simpa [Completion.refs] using covered⟩
  | some (.place cell) => exact read cell
  | some .normal => exact interrupted (by simpa using covered)
  | some (.breakTo label) => exact interrupted (by simpa using covered)
  | some (.continueTo label) => exact interrupted (by simpa using covered)
  | some (.returned value) => exact interrupted (by simpa using covered)
  | some (.thrown error) => exact interrupted (by simpa using covered)

/-- The cell a part has delivered. -/
theorem placeOf
    {incoming : Option Completion}
    (covered : floor.Cover (incoming.toList.flatMap Completion.refs)) :
    Keeps tree floor (Still floor fun cell => cell.index < floor.cells)
      (Step.placeOf incoming) := by
  match incoming with
  | none => exact raise _
  | some (.place cell) => exact pure ⟨rfl, by simpa [Completion.refs] using covered⟩
  | some (.value value) => exact interrupted (by simpa using covered)
  | some .normal => exact interrupted (by simpa using covered)
  | some (.breakTo label) => exact interrupted (by simpa using covered)
  | some (.continueTo label) => exact interrupted (by simpa using covered)
  | some (.returned value) => exact interrupted (by simpa using covered)
  | some (.thrown error) => exact interrupted (by simpa using covered)

/-- What is abrupt goes on to the frame below. -/
theorem settle
    {incoming : Option Completion}
    (covered : floor.Cover (incoming.toList.flatMap Completion.refs)) :
    Keeps tree floor (Still floor fun _ => True) (Step.settle incoming) := by
  cases incoming with
  | none => exact pure ⟨rfl, trivial⟩
  | some completion =>
      unfold Step.settle
      dsimp only
      split
      · exact throw (by simpa [Interrupt.Covered] using covered)
      · exact pure ⟨rfl, trivial⟩

/-- The truth value a condition has delivered. -/
theorem conditionOf
    {incoming : Option Completion}
    (covered : floor.Cover (incoming.toList.flatMap Completion.refs)) :
    Keeps tree floor (Still floor fun _ => True) (Step.conditionOf incoming) := by
  refine (valueOf covered).bind ?_
  rintro _ value - ⟨rfl, -⟩
  exact truth value

/-- The static type of an expression. -/
theorem typeOf
    (id : ExprId) :
    Keeps tree floor (Still floor fun _ => True) (Step.typeOf tree id) := by
  refine (part _).bind ?_
  rintro _ node - ⟨rfl, -⟩
  exact pure ⟨rfl, trivial⟩

/-- Whether a loop goes on after its body. -/
theorem goesOn
    {label : Option String}
    {incoming : Option Completion}
    (covered : floor.Cover (incoming.toList.flatMap Completion.refs)) :
    Keeps tree floor (Still floor fun _ => True) (Step.goesOn label incoming) := by
  have settled :
      Keeps tree floor (Still floor fun _ => True)
        (do
          Step.settle incoming
          Pure.pure true) := by
    refine (settle covered).bind ?_
    rintro _ _ - ⟨rfl, -⟩
    exact pure ⟨rfl, trivial⟩
  match incoming with
  | some (.breakTo jump) =>
      simp only [Step.goesOn]
      split
      · exact pure ⟨rfl, trivial⟩
      · exact throw Bounds.cover_nil
  | some (.continueTo jump) =>
      simp only [Step.goesOn]
      split
      · exact pure ⟨rfl, trivial⟩
      · exact throw Bounds.cover_nil
  | none => exact settled
  | some .normal => exact settled
  | some (.value value) => exact settled
  | some (.place cell) => exact settled
  | some (.returned value) => exact settled
  | some (.thrown error) => exact settled

/-- Whether a clause catches the exception held back. -/
theorem catches
    {frame : Frame}
    (clause : CatchClause)
    (tested : Value) :
    Keeps tree floor (Still floor fun _ => True) (Step.catches frame clause tested) := by
  unfold Step.catches
  split
  · exact truth tested
  · split
    · exact pure ⟨rfl, trivial⟩
    · exact pure ⟨rfl, trivial⟩

/-- An operand of a binary operator. -/
theorem operand
    {value : Value}
    (covered : floor.Cover value.refs)
    (source target : Ty) :
    Keeps tree floor (Still floor fun value => floor.Cover value.refs)
      (Step.operand value source target) := by
  unfold Step.operand
  split
  · exact pure ⟨rfl, covered⟩
  · exact convert covered source target

/-- The activation of a frame. -/
theorem activationOf
    (frame : Frame) :
    Keeps tree floor (Still floor fun activation => activation.Sound tree floor)
      (Step.activationOf frame) := by
  refine get.bind ?_
  rintro _ memory - ⟨rfl, sound, rfl⟩
  refine (require .notRunning _).weaken ?_
  rintro _ activation ⟨rfl, found⟩
  exact ⟨rfl, sound.activations activation (Array.mem_of_getElem? found)⟩

/-- A replaced activation. -/
theorem setActivation
    (position : Nat)
    {activation : Activation}
    (activationSound : activation.Sound tree floor) :
    Keeps tree floor (Still floor fun _ => True)
      (modify fun memory =>
        { memory with activations := memory.activations.setIfInBounds position activation }) := by
  rintro memory sound rfl
  exact .ok
    ⟨⟨sound.heap, sound.statics, sound.staticShape,
        Array.forall_mem_set sound.activations activationSound⟩,
      le_rfl, Array.size_setIfInBounds ..⟩
    ⟨rfl, trivial⟩

/-- The activation of a function in which every variable is freshly declared. -/
theorem activationFor
    {function : FunctionDef}
    {id : FuncId}
    (found : tree.function? id = some function)
    {this : Option ObjectId}
    (covered : floor.Cover (this.toList.map .object)) :
    Keeps tree floor
      (fun later activation =>
        activation.Sound tree later ∧ activation.function = some id)
      (Step.activationFor function id this) := by
  refine (addCells (by simp)).bind ?_
  rintro later locals grown ⟨within, size⟩
  refine pure ⟨⟨?_, ?_⟩, rfl⟩
  · simp only [Activation.refs, Bounds.cover_append, Bounds.cover_cells, Array.mem_toList_iff]
    exact ⟨covered.mono grown, within⟩
  · rintro _ ⟨⟩
    exact ⟨function, found, by simpa using size.symm⟩

/-- The store of an initial value. -/
theorem storeDeclared
    {cell : CellId}
    {value : Value}
    (covered : floor.Cover value.refs)
    (source : Ty)
    (limits : Limits) :
    Keeps tree floor (fun _ _ => True) (Step.storeDeclared cell value source limits) := by
  refine heap.bind ?_
  rintro _ heap - ⟨rfl, sound, rfl⟩
  refine (ofExcept fun _ placed => sound.bounded covered placed).bind ?_
  rintro _ ⟨held, after⟩ - ⟨rfl, becomes, heldCovered⟩
  refine (setHeap becomes).bind ?_
  rintro _ _ - rfl
  exact (store heldCovered source).weaken fun _ _ _ => trivial

end Keeps

/-- What a frame plays behind what was kept before. -/
theorem Played.behind
    {origin : Frame}
    {first second : Memory}
    {outcome : Except Interrupt Move × Memory}
    (played : Played tree origin second outcome)
    (becomes : first.Becomes tree second) :
    Played tree origin first outcome := by
  cases played with
  | error later covered => exact .error (becomes.trans later) covered
  | @ok move after sound grown fits =>
      refine .ok sound (le_trans becomes.grown grown) ?_
      cases move <;> simpa only [Move.Fits, becomes.height] using fits

namespace Plays

variable {origin frame : Frame} {last : UInt32}

/-- A step and the move that follows it. -/
theorem bind
    {post : Bounds → α → Prop}
    {step : Step α}
    {next : α → Step Move}
    (keeps : Keeps tree floor post step)
    (continued : ∀ later value,
      floor ≤ later → post later value → Plays tree later origin (next value)) :
    Plays tree floor origin (step >>= next) := by
  intro memory sound size
  have kept := keeps memory sound size
  simp only [ExceptT.run_bind, StateT.run_bind]
  revert kept
  generalize step.run.run memory = reached
  intro kept
  cases kept with
  | error becomes covered => exact .error becomes covered
  | ok becomes holds =>
      have rest := continued _ _ (size ▸ becomes.grown) holds _ becomes.sound rfl
      exact rest.behind becomes

/-- An interruption. -/
theorem throw
    {interrupt : Interrupt}
    (covered : interrupt.Covered floor) :
    Plays tree floor origin (MonadExcept.throw interrupt) := by
  rintro memory sound rfl
  exact .error sound.becomes covered

/-- An error. -/
theorem raise
    (code : ErrorCode) :
    Plays tree floor origin (Step.raise code) :=
  throw trivial

/-- A frame that is done. -/
theorem complete
    {completion : Completion}
    (covered : floor.Cover completion.refs) :
    Plays tree floor origin (Pure.pure (.complete completion)) := by
  rintro memory sound rfl
  exact .ok sound le_rfl ⟨covered, rfl⟩

/-- A delivered cell or its value. -/
theorem deliver
    {cell : CellId}
    (within : cell.index < floor.cells)
    (demand : Demand) :
    Plays tree floor origin (Step.deliver cell demand) := by
  cases demand with
  | place => exact complete (by simpa [Completion.refs] using within)
  | value =>
      refine bind (Keeps.read cell) ?_
      rintro _ value - ⟨rfl, covered⟩
      exact complete (by simpa [Completion.refs] using covered)

/-- A delivered value. -/
theorem produce
    {value : Value}
    (covered : floor.Cover value.refs)
    (ty : Ty)
    (demand : Demand) :
    Plays tree floor origin (Step.produce value ty demand) := by
  cases demand with
  | value => exact complete (by simpa [Completion.refs] using covered)
  | place =>
      refine bind (Keeps.addCell (by simpa [Cell.withValue] using covered)) ?_
      intro later cell _ within
      exact complete (by simpa [Completion.refs] using within)

/-- A counted step of a statement. -/
theorem tick
    (isStatement : ∃ id, origin.node = .statement id)
    (stands : frame.Stands floor origin)
    (within : frame.WithinStates tree) :
    Plays tree floor origin (Pure.pure (.tick frame)) := by
  rintro memory sound rfl
  exact .ok sound le_rfl ⟨stands, within, isStatement, rfl⟩

variable (known : origin.node.lastState? tree = some last)

include known

/-- A frame whose state is no later than the last one is at a step of its node. -/
theorem withinStates
    (stands : frame.Stands floor origin)
    (state : frame.state ≤ last) :
    frame.WithinStates tree := by
  intro other found
  rw [stands.1, known, Option.some.injEq] at found
  exact found ▸ state

/-- A frame on top of a frame that shares its activation. -/
theorem pushPart
    (stands : frame.Stands floor origin)
    (state : frame.state ≤ last)
    {node : Node}
    (part : node.ownsActivation = false) :
    Plays tree floor origin (Pure.pure (.push frame (.enter node frame.act))) := by
  rintro memory sound rfl
  refine .ok sound le_rfl ⟨stands, withinStates known stands state, ?_, rfl, ?_⟩
  · rw [known]
    rfl
  · rw [if_neg (by simp [Frame.enter, part])]
    exact ⟨rfl, stands.2.1⟩

/-- A statement on top of a frame. -/
theorem pushStatement
    (stands : frame.Stands floor origin)
    (state : frame.state ≤ last)
    (id : StmtId) :
    Plays tree floor origin (Pure.pure (Step.pushStatement frame id)) :=
  pushPart known stands state rfl

/-- An expression on top of a frame. -/
theorem pushExpression
    (stands : frame.Stands floor origin)
    (state : frame.state ≤ last)
    (id : ExprId)
    (demand : Demand) :
    Plays tree floor origin (Pure.pure (Step.pushExpression frame id demand)) :=
  pushPart known stands state rfl

/-- A frame with a new activation on top of a frame. -/
theorem pushOwner
    (stands : frame.Stands floor origin)
    (state : frame.state ≤ last)
    {node : Node}
    (owner : node.ownsActivation = true)
    (setting : Setting)
    {activation : Activation}
    (activationSound : activation.Sound tree floor) :
    Plays tree floor origin (do
      let act ← Step.pushActivation setting activation
      Pure.pure (.push frame (.enter node act))) := by
  rintro memory sound rfl
  simp only [ExceptT.run_bind, StateT.run_bind, run_pushActivation]
  split
  · exact .error sound.becomes trivial
  · next free =>
      have depth := setting.callDepth.toNat_lt
      refine .ok
        ⟨sound.heap, sound.statics, sound.staticShape,
          Array.forall_mem_push sound.activations activationSound⟩
        le_rfl
        ⟨stands, withinStates known stands state, ?_, rfl, ?_⟩
      · rw [known]
        rfl
      · rw [if_pos (by exact owner)]
        refine ⟨Array.size_push .., ?_⟩
        exact UInt32.toNat_ofNat_of_lt' (by simp only [UInt32.size]; omega)

end Plays

end Step

end BotScript
