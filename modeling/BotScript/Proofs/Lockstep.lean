import BotScript.Proofs.HeapEmbedding

namespace BotScript

/-!
# Steps in lockstep

An embedding says how the memory of one program lies in the memory of another:
the heap is relocated, and the lowest activations, which belong to other
frames, need not have anything to do with each other.  A step over the outer
memory follows a step over the inner one if it has the renamed result and
leaves memories of which one lies in the other again.
-/

/-- The parts and the host of an inner world as an outer world has them. -/
structure World.Embeds (shift : Relocation) (inner outer : World) : Prop where
  heap : Heap.Embeds shift inner.heap outer.heap
  host : outer.host = inner.host

/-- How a memory lies in another, with the activations of both that are out of sight. -/
structure Embedding extends Relocation where
  innerBelow : Array Activation
  outerBelow : Array Activation
  below_size : outerBelow.size = innerBelow.size

/-- The parts of an inner memory as an outer memory has them. -/
structure Memory.Embeds (embedding : Embedding) (inner outer : Memory) : Prop where
  world : World.Embeds embedding.toRelocation inner.world outer.world
  statics : outer.statics = inner.statics.map (·.map embedding.cell)
  activations :
    ∃ visible,
      inner.activations = embedding.innerBelow ++ visible ∧
        outer.activations = embedding.outerBelow ++ visible.map embedding.activation

/-- The result of an operation under another name. -/
def Renamed {α β : Type} (rename : α → β) (inner : α) (outer : β) : Prop :=
  outer = rename inner

/-- Whether the frames of a move read their variables from activations from a position on. -/
def Move.Above (base : Nat) : Move → Prop
  | .push frame child => base ≤ frame.act.toNat ∧ base ≤ child.act.toNat
  | .tick frame => base ≤ frame.act.toNat
  | .complete _ => True

/-- A move under another name that stays within the visible activations. -/
def Embedding.Moves (embedding : Embedding) (inner outer : Move) : Prop :=
  outer = embedding.move inner ∧ inner.Above embedding.innerBelow.size

namespace Step

/-- A new activation goes behind the others unless there are too many of them. -/
theorem run_pushActivation
    (setting : Setting)
    (activation : Activation)
    (memory : Memory) :
    (pushActivation setting activation).run.run memory =
      if setting.callDepth.toNat ≤ memory.activations.size then
        (.error (.fault (.error .stackOverflow)), memory)
      else
        (.ok (UInt32.ofNat memory.activations.size),
          { memory with activations := memory.activations.push activation }) := by
  have reads :
      (pushActivation setting activation).run.run memory =
        ((do
          if setting.callDepth.toNat ≤ memory.activations.size then raise .stackOverflow
          modify fun memory => { memory with activations := memory.activations.push activation }
          pure (UInt32.ofNat memory.activations.size) : Step UInt32).run.run memory) := rfl
  rw [reads]
  split <;> rfl

/-- Related results of a step over memories of which one lies in the other. -/
inductive Related
    {α β : Type} (embedding : Embedding) (related : α → β → Prop) :
    Except Interrupt α × Memory → Except Interrupt β × Memory → Prop where
  | ok
      {first : α}
      {second : β}
      {inner outer : Memory} :
      related first second →
      Memory.Embeds embedding inner outer →
      Related embedding related (.ok first, inner) (.ok second, outer)
  | error
      {interrupt : Interrupt}
      {inner outer : Memory} :
      Memory.Embeds embedding inner outer →
      Related embedding related
        (.error interrupt, inner) (.error (embedding.interrupt interrupt), outer)

/-- A step over an outer memory does what a step over an inner memory does. -/
def Follows
    {α β : Type} (embedding : Embedding) (related : α → β → Prop)
    (inner : Step α) (outer : Step β) :
    Prop :=
  ∀ before after,
    Memory.Embeds embedding before after →
    Related embedding related (inner.run.run before) (outer.run.run after)

namespace Follows

variable {embedding : Embedding} {α β γ δ : Type}

/-- Steps that do nothing follow each other. -/
theorem pure
    {related : α → β → Prop}
    {first : α}
    {second : β}
    (values : related first second) :
    Follows embedding related (Pure.pure first) (Pure.pure second) :=
  fun _ _ embeds => .ok values embeds

/-- Steps that follow each other continue with steps that do. -/
theorem bind
    {R : α → β → Prop}
    {result : γ → δ → Prop}
    {inner : Step α}
    {outer : Step β}
    {innerNext : α → Step γ}
    {outerNext : β → Step δ}
    (follows : Follows embedding R inner outer)
    (continued : ∀ first second,
      R first second → Follows embedding result (innerNext first) (outerNext second)) :
    Follows embedding result (inner >>= innerNext) (outer >>= outerNext) := by
  intro before after embeds
  have reached := follows before after embeds
  simp only [ExceptT.run_bind, StateT.run_bind]
  revert reached
  generalize inner.run.run before = innerResult
  generalize outer.run.run after = outerResult
  intro reached
  cases reached with
  | ok values later => exact continued _ _ values _ _ later
  | error later => exact .error later

/-- Interruptions follow each other. -/
theorem throw
    {related : α → β → Prop}
    (interrupt : Interrupt) :
    Follows embedding related (MonadExcept.throw interrupt)
      (MonadExcept.throw (embedding.interrupt interrupt)) :=
  fun _ _ embeds => .error embeds

/-- Errors follow each other. -/
theorem raise
    {R : α → β → Prop}
    (code : ErrorCode) :
    Follows embedding R (Step.raise code) (Step.raise code) :=
  throw (.fault (.error code))

/-- Checked results follow each other. -/
theorem ofChecked
    {R : α → β → Prop}
    {inner : Checked α}
    {outer : Checked β}
    (agree : Agree R inner outer) :
    Follows embedding R (Step.ofChecked inner) (Step.ofChecked outer) := by
  cases agree with
  | ok values => exact pure values
  | error => exact throw (.fault _)

/-- Results that can be errors follow each other. -/
theorem ofExcept
    {R : α → β → Prop}
    {inner : Except ErrorCode α}
    {outer : Except ErrorCode β}
    (agree : Agree R inner outer) :
    Follows embedding R (Step.ofExcept inner) (Step.ofExcept outer) := by
  cases agree with
  | ok values => exact pure values
  | error => exact throw (.fault _)

/-- A value that must be there. -/
theorem require
    (code : ErrorCode)
    {rename : α → β}
    (value : Option α) :
    Follows embedding (Renamed rename)
      (Step.require code value) (Step.require code (value.map rename)) := by
  cases value with
  | none => exact raise code
  | some value => exact pure rfl

/-- A value that must be there and refers to nothing. -/
theorem require_same
    (code : ErrorCode)
    (value : Option α) :
    Follows embedding Eq (Step.require code value) (Step.require code value) := by
  cases value with
  | none => exact raise code
  | some value => exact pure rfl

/-- A part of the program. -/
theorem part
    (value : Option α) :
    Follows embedding Eq (Step.part value) (Step.part value) := by
  cases value with
  | none => exact throw (.fault .missingPart)
  | some value => exact pure rfl

/-- The current memory. -/
theorem get :
    Follows embedding (Memory.Embeds embedding) MonadState.get MonadState.get :=
  fun _ _ embeds => .ok embeds embeds

/-- The current heap. -/
theorem heap :
    Follows embedding (Heap.Embeds embedding.toRelocation) Step.heap Step.heap :=
  fun _ _ embeds => .ok embeds.world.heap embeds

/-- An operation on the heap. -/
theorem allocate
    {R : α → β → Prop}
    {inner : Heap → α × Heap}
    {outer : Heap → β × Heap}
    (operation : ∀ first second,
      Heap.Embeds embedding.toRelocation first second →
      R (inner first).1 (outer second).1 ∧
        Heap.Embeds embedding.toRelocation (inner first).2 (outer second).2) :
    Follows embedding R (Step.allocate inner) (Step.allocate outer) := by
  intro before after embeds
  obtain ⟨values, heap⟩ := operation _ _ embeds.world.heap
  exact .ok values ⟨⟨heap, embeds.world.host⟩, embeds.statics, embeds.activations⟩

/-- A change of the heap. -/
theorem modifyHeap
    {inner outer : Heap → Heap}
    (change : ∀ first second,
      Heap.Embeds embedding.toRelocation first second →
      Heap.Embeds embedding.toRelocation (inner first) (outer second)) :
    Follows embedding Eq (Step.modifyHeap inner) (Step.modifyHeap outer) :=
  allocate fun first second embeds => ⟨rfl, change first second embeds⟩

/-- A replaced heap. -/
theorem setHeap
    {inner outer : Heap}
    (embeds : Heap.Embeds embedding.toRelocation inner outer) :
    Follows embedding Eq (Step.setHeap inner) (Step.setHeap outer) :=
  modifyHeap fun _ _ _ => embeds

/-- The value of a cell. -/
theorem read
    (cell : CellId) :
    Follows embedding (Renamed embedding.value)
      (Step.read cell) (Step.read (embedding.cell cell)) := by
  refine heap.bind fun inner outer embeds => ofExcept ?_
  rw [embeds.read]
  cases inner.read cell with
  | ok value => exact .ok rfl
  | error code => exact .error

/-- A store into a cell. -/
theorem store
    (cell : CellId)
    (value : Value)
    (source : Ty) :
    Follows embedding Eq (Step.store cell value source)
      (Step.store (embedding.cell cell) (embedding.value value) source) := by
  refine heap.bind fun inner outer embeds => ?_
  have stored := embeds.stored (inner.cell cell) (some cell) value source
  rw [Option.map_some, ← embeds.cell] at stored
  rw [stored]
  refine (ofChecked (R := Renamed embedding.content) ?_).bind ?_
  · cases (inner.cell cell).stored inner (some cell) value source with
    | ok content => exact .ok rfl
    | error fault => exact .error
  · rintro content _ rfl
    exact modifyHeap fun _ _ embeds => embeds.setCell cell content

/-- A converted value. -/
theorem convert
    (value : Value)
    (source target : Ty) :
    Follows embedding (Renamed embedding.value) (Step.convert value source target)
      (Step.convert (embedding.value value) source target) := by
  refine heap.bind fun inner outer embeds => ofChecked ?_
  rw [embeds.convert]
  cases inner.convert value source target with
  | ok value => exact .ok rfl
  | error fault => exact .error

/-- The truth value of a condition. -/
theorem truth
    (value : Value) :
    Follows embedding Eq (Step.truth value) (Step.truth (embedding.value value)) := by
  unfold Step.truth
  rw [Relocation.value_truth]
  refine ofExcept ?_
  cases value.truth with
  | ok flag => exact .ok rfl
  | error code => exact .error

/-- The value a part has delivered. -/
theorem valueOf
    (incoming : Option Completion) :
    Follows embedding (Renamed embedding.value) (Step.valueOf incoming)
      (Step.valueOf (incoming.map embedding.completion)) := by
  match incoming with
  | none => exact raise _
  | some (.value value) => exact pure rfl
  | some (.place cell) => exact read cell
  | some .normal => exact raise _
  | some (.breakTo label) => exact throw (.propagate _)
  | some (.continueTo label) => exact throw (.propagate _)
  | some (.returned value) => exact throw (.propagate _)
  | some (.thrown error) => exact throw (.propagate _)

/-- The cell a part has delivered. -/
theorem placeOf
    (incoming : Option Completion) :
    Follows embedding (Renamed embedding.cell) (Step.placeOf incoming)
      (Step.placeOf (incoming.map embedding.completion)) := by
  match incoming with
  | none => exact raise _
  | some (.value value) => exact raise _
  | some (.place cell) => exact pure rfl
  | some .normal => exact raise _
  | some (.breakTo label) => exact throw (.propagate _)
  | some (.continueTo label) => exact throw (.propagate _)
  | some (.returned value) => exact throw (.propagate _)
  | some (.thrown error) => exact throw (.propagate _)

/-- What is abrupt goes on to the frame below. -/
theorem settle
    (incoming : Option Completion) :
    Follows embedding Eq (Step.settle incoming)
      (Step.settle (incoming.map embedding.completion)) := by
  match incoming with
  | none => exact pure rfl
  | some (.value value) => exact pure rfl
  | some (.place cell) => exact pure rfl
  | some .normal => exact pure rfl
  | some (.breakTo label) => exact throw (.propagate _)
  | some (.continueTo label) => exact throw (.propagate _)
  | some (.returned value) => exact throw (.propagate _)
  | some (.thrown error) => exact throw (.propagate _)

/-- The truth value a condition has delivered. -/
theorem conditionOf
    (incoming : Option Completion) :
    Follows embedding Eq (Step.conditionOf incoming)
      (Step.conditionOf (incoming.map embedding.completion)) := by
  refine (valueOf incoming).bind ?_
  rintro value _ rfl
  exact truth value

/-- A frame that is done. -/
theorem complete
    (completion : Completion) :
    Follows embedding embedding.Moves (Pure.pure (.complete completion))
      (Pure.pure (.complete (embedding.completion completion))) :=
  pure ⟨rfl, trivial⟩

/-- A delivered cell or its value. -/
theorem deliver
    (cell : CellId)
    (demand : Demand) :
    Follows embedding embedding.Moves (Step.deliver cell demand)
      (Step.deliver (embedding.cell cell) demand) := by
  cases demand with
  | place => exact complete _
  | value =>
      refine (read cell).bind ?_
      rintro value _ rfl
      exact complete (.value value)

/-- A new cell. -/
theorem addCell
    (cell : Cell) :
    Follows embedding (Renamed embedding.cell)
      (Step.allocate fun heap => heap.addCell cell)
      (Step.allocate fun heap => heap.addCell (embedding.content cell)) :=
  allocate fun _ _ embeds => embeds.addCell cell

/-- A new cell that is freshly declared. -/
theorem addDeclared
    (ty : Ty) :
    Follows embedding (Renamed embedding.cell)
      (Step.allocate fun heap => heap.addCell (.declared ty))
      (Step.allocate fun heap => heap.addCell (.declared ty)) := by
  have added : Follows embedding _ _ _ := addCell (.declared ty)
  simpa using added

/-- A delivered value. -/
theorem produce
    (value : Value)
    (ty : Ty)
    (demand : Demand) :
    Follows embedding embedding.Moves (Step.produce value ty demand)
      (Step.produce (embedding.value value) ty demand) := by
  cases demand with
  | value => exact complete (.value value)
  | place =>
      refine (addCell (.withValue ty value)).bind ?_
      rintro cell _ rfl
      exact complete (.place cell)

/-- The static type of an expression. -/
theorem typeOf
    (tree : Tree)
    (id : ExprId) :
    Follows embedding Eq (Step.typeOf tree id) (Step.typeOf tree id) := by
  refine (part _).bind ?_
  rintro node _ rfl
  exact pure rfl

/-- An operand of a binary operator. -/
theorem operand
    (value : Value)
    (source target : Ty) :
    Follows embedding (Renamed embedding.value) (Step.operand value source target)
      (Step.operand (embedding.value value) source target) := by
  unfold Step.operand
  split
  · exact pure rfl
  · exact convert value source target

/-- The activation of a frame that is in sight. -/
theorem activationOf
    {frame : Frame}
    (visible : embedding.innerBelow.size ≤ frame.act.toNat) :
    Follows embedding (Renamed embedding.activation)
      (Step.activationOf frame) (Step.activationOf (embedding.frame frame)) := by
  refine get.bind fun inner outer embeds => ?_
  obtain ⟨own, innerOwn, outerOwn⟩ := embeds.activations
  have same :
      outer.activations[frame.act.toNat]? =
        inner.activations[frame.act.toNat]?.map embedding.activation := by
    rw [innerOwn, outerOwn, Array.getElem?_append_right visible,
      Array.getElem?_append_right (embedding.below_size ▸ visible), embedding.below_size,
      Array.getElem?_map]
  rw [Relocation.frame_act, same]
  exact require _ _

/-- A new activation; its position is in sight. -/
theorem pushActivation
    (setting : Setting)
    (activation : Activation) :
    Follows embedding
      (fun inner outer => outer = inner ∧ embedding.innerBelow.size ≤ inner.toNat)
      (Step.pushActivation setting activation)
      (Step.pushActivation setting (embedding.activation activation)) := by
  intro before after embeds
  obtain ⟨own, innerOwn, outerOwn⟩ := embeds.activations
  have size : after.activations.size = before.activations.size := by
    simp [innerOwn, outerOwn, embedding.below_size]
  have above : embedding.innerBelow.size ≤ before.activations.size := by
    simp [innerOwn]
  rw [run_pushActivation, run_pushActivation, size]
  split
  · exact .error embeds
  · next free =>
      refine .ok ⟨rfl, ?_⟩ ⟨embeds.world, embeds.statics, own.push activation, ?_, ?_⟩
      · have depth := setting.callDepth.toNat_lt
        rw [UInt32.toNat_ofNat_of_lt' (by simp only [UInt32.size]; omega)]
        exact above
      · simp [innerOwn]
      · simp [outerOwn]

/-- The activation of a function in which every variable is freshly declared. -/
theorem activationFor
    (function : FunctionDef)
    (id : FuncId)
    (this : Option ObjectId) :
    Follows embedding (Renamed embedding.activation) (Step.activationFor function id this)
      (Step.activationFor function id (this.map embedding.object)) := by
  have declared :
      (function.locals.map fun entry => Cell.declared entry.ty).map embedding.content =
        function.locals.map fun entry => Cell.declared entry.ty := by
    simp [Function.comp_def]
  refine (allocate (R := Renamed (·.map embedding.cell)) ?_).bind ?_
  · intro inner outer embeds
    have added := embeds.addCells (function.locals.map fun entry => Cell.declared entry.ty)
    rwa [declared] at added
  · rintro locals _ rfl
    exact pure rfl

/-- The store of an initial value. -/
theorem storeDeclared
    (cell : CellId)
    (value : Value)
    (source : Ty)
    (limits : Limits) :
    Follows embedding Eq (Step.storeDeclared cell value source limits)
      (Step.storeDeclared (embedding.cell cell) (embedding.value value) source limits) := by
  refine heap.bind fun inner outer embeds => ?_
  refine (ofExcept (embeds.bounded value limits)).bind ?_
  rintro ⟨bounded, innerHeap⟩ ⟨_, outerHeap⟩ ⟨rfl, later⟩
  refine (setHeap later).bind fun _ _ _ => ?_
  exact store cell bounded source

/-- A statement on top of a frame that is in sight. -/
theorem pushStatement
    {frame : Frame}
    (visible : embedding.innerBelow.size ≤ frame.act.toNat)
    (id : StmtId) :
    Follows embedding embedding.Moves (Pure.pure (Step.pushStatement frame id))
      (Pure.pure (Step.pushStatement (embedding.frame frame) id)) :=
  pure ⟨rfl, visible, visible⟩

/-- An expression on top of a frame that is in sight. -/
theorem pushExpression
    {frame : Frame}
    (visible : embedding.innerBelow.size ≤ frame.act.toNat)
    (id : ExprId)
    (demand : Demand) :
    Follows embedding embedding.Moves (Pure.pure (Step.pushExpression frame id demand))
      (Pure.pure (Step.pushExpression (embedding.frame frame) id demand)) :=
  pure ⟨rfl, visible, visible⟩

end Follows

end Step

end BotScript
