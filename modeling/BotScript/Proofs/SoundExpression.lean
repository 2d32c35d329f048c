import BotScript.Proofs.SoundStatement

namespace BotScript

/-!
# Expressions over sound memories

The step of an expression keeps a memory sound, and its move fits.  A native of
the host can do anything to the heap that leaves it sound.
-/

open Restored (Bounds)

/-- The parts of the heap that a call of a native refers to. -/
def NativeCall.refs (call : NativeCall) : List HeapRef :=
  call.receiver.toList.map .object ++ call.arguments.flatMap Value.refs

/-- An action over a sound heap leaves a sound heap, and delivers what exists on it. -/
def Action.Keeps
    {α : Type} (tree : Tree) (refs : α → List HeapRef) (before : World) (action : Action α) :
    Prop :=
  before.heap.Becomes tree (action.run.run before).2.heap ∧
    ∀ result, (action.run.run before).1 = .ok result →
      (action.run.run before).2.heap.bounds.Cover (refs result)

/-- The natives of a registry keep heaps sound, given parts that exist. -/
def Registry.KeepsHeaps (registry : Registry) (tree : Tree) : Prop :=
  ∀ id call world,
    world.heap.Sound tree →
    world.heap.bounds.Cover call.refs →
    Action.Keeps tree Value.refs world (registry.call id call)

namespace Step

variable {tree : Tree} {setting : Setting} {floor : Bounds} {origin frame : Frame}
  {incoming : Option Completion}

namespace Keeps

/-- The instance that a receiver denotes. -/
theorem receiver
    {value : Option Value}
    (covered : floor.Cover (value.toList.flatMap Value.refs)) :
    Keeps tree floor (Still floor fun object => object.index < floor.objects)
      (Step.receiver value) := by
  match value with
  | some (.object object) => exact pure ⟨rfl, by simpa [Value.refs] using covered⟩
  | none => exact raise _
  | some .null => exact raise _
  | some .void => exact raise _
  | some (.bool _) => exact raise _
  | some (.int _) => exact raise _
  | some (.float _) => exact raise _
  | some (.str _) => exact raise _
  | some .nan => exact raise _
  | some (.array _) => exact raise _

/-- The argument that comes behind the values evaluated so far. -/
private theorem argumentNext
    (stands : frame.Stands floor origin)
    (arguments : List ExprId)
    {values : List Value}
    (kept : ∀ value ∈ values, floor.Cover value.refs) :
    Keeps tree floor
      (Still floor fun collected =>
        collected.1.Stands floor origin ∧ collected.1.state = frame.state)
      (match arguments[frame.cursor.toNat]? with
      | some next => Pure.pure ({ frame with values, cursor := frame.cursor + 1 }, some next)
      | none => Pure.pure ({ frame with values }, none)) := by
  split
  · exact pure ⟨rfl, stands.withValues kept, rfl⟩
  · exact pure ⟨rfl, stands.withValues kept, rfl⟩

/-- The arguments evaluated so far, and one that comes next. -/
theorem collect
    (stands : frame.Stands floor origin)
    (arguments : List ExprId)
    (covered : floor.Cover (incoming.toList.flatMap Completion.refs)) :
    Keeps tree floor
      (Still floor fun collected =>
        collected.1.Stands floor origin ∧ collected.1.state = frame.state)
      (Step.collect frame arguments incoming) := by
  unfold Step.collect
  cases incoming with
  | none => exact argumentNext stands arguments stands.operands
  | some completion =>
      simp only [pure_bind]
      refine (valueOf covered).bind ?_
      rintro _ value - ⟨rfl, valueCovered⟩
      refine argumentNext stands arguments fun other member => ?_
      rcases List.mem_append.mp member with old | new
      · exact stands.operands other old
      · exact List.mem_singleton.mp new ▸ valueCovered

/-- The cells of parameters that hold the arguments of a call. -/
theorem bindParams
    {params : List Param}
    {arguments : List ExprId}
    {values : List Value}
    {locals : Array CellId}
    (covered : ∀ value ∈ values, floor.Cover value.refs)
    (within : ∀ cell ∈ locals, cell.index < floor.cells) :
    Keeps tree floor
      (fun later bound =>
        (∀ cell ∈ bound, cell.index < later.cells) ∧ bound.size = locals.size)
      (Step.bindParams tree params arguments values locals) := by
  induction params generalizing floor arguments values locals with
  | nil => exact pure ⟨within, rfl⟩
  | cons param params inductionHypothesis =>
      match arguments, values with
      | [], _ => exact pure ⟨within, rfl⟩
      | _ :: _, [] => exact pure ⟨within, rfl⟩
      | argument :: arguments, value :: values =>
          refine (addCell (by simp)).bind ?_
          intro later cell grown cellWithin
          refine (typeOf argument).bind ?_
          rintro _ source - ⟨rfl, -⟩
          have held := (covered value (List.mem_cons_self ..)).mono grown
          refine (store held source).bind ?_
          rintro _ _ - ⟨rfl, -⟩
          refine (inductionHypothesis
            (fun other member => (covered other (List.mem_cons_of_mem _ member)).mono grown)
            (Array.forall_mem_set (fun other member =>
              Nat.lt_of_lt_of_le (within other member) grown.cells) cellWithin)).weaken ?_
          rintro _ bound ⟨boundWithin, size⟩
          exact ⟨boundWithin, size.trans (Array.size_setIfInBounds ..)⟩

/-- An action of the host. -/
theorem ofAction
    {α : Type}
    {refs : α → List HeapRef}
    {action : Action α}
    (keeps : ∀ world : World, world.heap.Sound tree → world.heap.bounds = floor →
      Action.Keeps tree refs world action) :
    Keeps tree floor (fun later result => later.Cover (refs result))
      (Step.ofAction action) := by
  rintro memory sound rfl
  obtain ⟨becomes, covered⟩ := keeps memory.world sound.heap rfl
  have after := sound.withWorld becomes
  have runs :
      (Step.ofAction action).run.run memory =
        (Step.ofChecked (action.run.run memory.world).1).run.run
          { memory with world := (action.run.run memory.world).2 } := rfl
  rw [runs]
  cases result : (action.run.run memory.world).1 with
  | ok value => exact .ok after (covered value result)
  | error fault => exact .error after trivial

/-- The static types of arguments. -/
theorem typesOf
    (arguments : List ExprId) :
    Keeps tree floor (Still floor fun _ => True) (arguments.mapM (Step.typeOf tree)) := by
  induction arguments with
  | nil => exact pure ⟨rfl, trivial⟩
  | cons argument arguments inductionHypothesis =>
      rw [List.mapM_cons]
      refine (typeOf argument).bind ?_
      rintro _ ty - ⟨rfl, -⟩
      refine inductionHypothesis.bind ?_
      rintro _ types - ⟨rfl, -⟩
      exact pure ⟨rfl, trivial⟩

/-- A call of a native. -/
theorem callNative
    (natives : setting.registry.KeepsHeaps setting.tree)
    (id : NativeId)
    {this : Option ObjectId}
    (arguments : List ExprId)
    {values : List Value}
    (thisCovered : floor.Cover (this.toList.map .object))
    (covered : ∀ value ∈ values, floor.Cover value.refs) :
    Keeps setting.tree floor (fun later value => later.Cover value.refs)
      (Step.callNative setting id this arguments values) := by
  refine (typesOf arguments).bind ?_
  rintro _ types - ⟨rfl, -⟩
  refine ofAction fun world sound size => natives id _ world sound ?_
  rw [size]
  simp only [NativeCall.refs, Bounds.cover_append, Bounds.cover_flatMap]
  exact ⟨thisCovered, covered⟩

/-- The array a write through a cell goes to. -/
theorem arrayForWrite
    (holder : CellId) :
    Keeps tree floor (fun _ _ => True) (Step.arrayForWrite holder) := by
  refine heap.bind ?_
  rintro _ heap - ⟨rfl, -, -⟩
  dsimp only
  cases (heap.cell holder).value with
  | array id => exact pure trivial
  | null =>
      refine (require _ _).bind ?_
      rintro _ element - ⟨rfl, -⟩
      refine (addArray (ArrayData.sound_empty _ element [])).bind ?_
      intro later array _ within
      refine (store (by simpa [Value.refs] using within) _).bind ?_
      rintro _ _ - -
      exact pure trivial
  | _ => exact raise _

/-- The position that an index expression has delivered. -/
theorem indexOf
    (covered : floor.Cover (incoming.toList.flatMap Completion.refs)) :
    Keeps tree floor (Still floor fun _ => True) (Step.indexOf incoming) := by
  refine (valueOf covered).bind ?_
  rintro _ value - ⟨rfl, -⟩
  have position : Keeps tree floor (Still floor fun _ => True)
      (Step.require .badIndex value.int?) :=
    (require _ _).weaken fun _ _ found => ⟨found.1, trivial⟩
  cases value with
  | nan => exact raise _
  | _ => exact position

/-- A cell of an array that grows up to it. -/
theorem growTo
    (array : ArrayId)
    {position : Nat}
    (fits : position ≤ ArrayData.greatestIndex) :
    Keeps tree floor (fun later found => ∀ cell, found = some cell → cell.index < later.cells)
      (Step.allocate fun heap => heap.growTo array position) :=
  allocate fun _ sound _ => sound.growTo fits

/-- A new array with the items of a literal. -/
theorem addItems
    {element : Ty}
    {values : List Value}
    (covered : ∀ value ∈ values, floor.Cover value.refs)
    (fits : values.length ≤ ArrayData.greatestIndex + 1) :
    Keeps tree floor (fun later id => id.index < later.arrays)
      (Step.allocate fun heap =>
        let (cells, heap) := heap.addCells (values.map fun value => Cell.withValue element value)
        heap.addArray ⟨element, [], cells⟩) := by
  refine allocate fun heap sound same => ?_
  have held : ∀ cell ∈ values.map fun value => Cell.withValue element value,
      heap.bounds.Cover cell.value.refs := by
    intro cell member
    obtain ⟨value, valueMember, rfl⟩ := List.mem_map.mp member
    exact same ▸ covered value valueMember
  obtain ⟨added, within, size⟩ := sound.addCells held
  rw [List.length_map] at size
  have filled : ArrayData.Sound _ ⟨element, [], _⟩ := ⟨within, size ▸ fits⟩
  obtain ⟨becomes, arrayWithin⟩ := added.sound.addArray filled
  exact ⟨added.trans becomes, arrayWithin⟩

/-- The store of an assignment. -/
theorem assignTo
    {cell : CellId}
    (op : Option BinaryOp)
    (common ty source : Ty)
    {assigned : Value}
    (covered : floor.Cover assigned.refs) :
    Keeps tree floor (Still floor fun _ => True)
      (Step.assignTo cell op common ty source assigned) := by
  cases op with
  | none => exact store covered source
  | some op =>
      refine (read cell).bind ?_
      rintro _ current - ⟨rfl, currentCovered⟩
      refine (operand currentCovered ty common).bind ?_
      rintro _ left - ⟨rfl, -⟩
      refine (operand covered source common).bind ?_
      rintro _ right - ⟨rfl, -⟩
      have applies :
          Keeps tree floor (Still floor fun result => result.refs = [])
            (Step.ofExcept (op.apply common left right)) :=
        ofExcept fun result applied => op.apply_refs applied
      refine applies.bind ?_
      rintro _ result - ⟨rfl, plain⟩
      exact store (by simp [plain]) common

end Keeps

namespace Plays

variable {last : UInt32} {ty : Ty} {demand : Demand}

/-- The delivered value of a finished call. -/
theorem produceIncoming
    (covered : floor.Cover (incoming.toList.flatMap Completion.refs)) :
    Plays tree floor origin (do Step.produce (← Step.valueOf incoming) ty demand) := by
  refine bind (Keeps.valueOf covered) ?_
  rintro _ value - ⟨rfl, valueCovered⟩
  exact produce valueCovered ty demand

/-- A function of the program on top of a frame. -/
theorem enterFunction
    (known : origin.node.lastState? setting.tree = some last)
    (stands : frame.Stands floor origin)
    (state : frame.state ≤ last)
    {id : FuncId}
    {this : Option ObjectId}
    {arguments : List ExprId}
    {values : List Value}
    (thisCovered : floor.Cover (this.toList.map .object))
    (covered : ∀ value ∈ values, floor.Cover value.refs) :
    Plays setting.tree floor origin (do
      let act ← Step.bind setting id this arguments values
      Pure.pure (.push frame (.enter (.function id) act))) := by
  unfold Step.bind
  simp only [bind_assoc]
  refine bind (Keeps.require _ _) ?_
  rintro _ function - ⟨rfl, found⟩
  refine bind (Keeps.activationFor found thisCovered) ?_
  rintro later activation grown ⟨activationSound, named⟩
  obtain ⟨refs, shaped⟩ := activationSound
  simp only [Activation.refs, Bounds.cover_append, Bounds.cover_cells,
    Array.mem_toList_iff] at refs
  refine bind (Keeps.bindParams (fun value member => (covered value member).mono grown) refs.2) ?_
  rintro latest locals grownMore ⟨within, size⟩
  refine pushOwner known (stands.mono (le_trans grown grownMore)) state rfl setting
    ⟨?_, ?_⟩
  · simp only [Activation.refs, Bounds.cover_append, Bounds.cover_cells, Array.mem_toList_iff]
    exact ⟨refs.1.mono grownMore, within⟩
  · intro other same
    obtain ⟨known, knownFound, count⟩ := shaped other same
    exact ⟨known, knownFound, count.trans size.symm⟩

/-- A call of a function of the program. -/
theorem call
    {id : FuncId}
    {arguments : List ExprId}
    (known : origin.node.lastState? setting.tree = some 1)
    (stands : frame.Stands floor origin)
    (covered : floor.Cover (incoming.toList.flatMap Completion.refs)) :
    Plays setting.tree floor origin
      (Step.call setting frame id arguments ty demand incoming) := by
  unfold Step.call
  split
  · next state =>
      refine bind (Keeps.collect stands arguments covered) ?_
      rintro _ ⟨collected, next⟩ - ⟨rfl, collectedStands, sameState⟩
      cases next with
      | some next =>
          have early : collected.state ≤ 1 := by
            rw [sameState, state]
            decide
          exact pushExpression known collectedStands early _ _
      | none =>
          exact enterFunction known
            (by exact collectedStands.withValues fun value member => absurd member (by simp))
            (UInt32.le_refl 1) Bounds.cover_nil collectedStands.operands
  · exact produceIncoming covered

section Natives

variable (natives : setting.registry.KeepsHeaps setting.tree)

include natives

/-- A call of a function of the host. -/
theorem nativeCall
    {id : NativeId}
    {arguments : List ExprId}
    (known : origin.node.lastState? setting.tree = some 0)
    (stands : frame.Stands floor origin)
    (state : frame.state ≤ 0)
    (covered : floor.Cover (incoming.toList.flatMap Completion.refs)) :
    Plays setting.tree floor origin
      (Step.nativeCall setting frame id arguments ty demand incoming) := by
  refine bind (Keeps.collect stands arguments covered) ?_
  rintro _ ⟨collected, next⟩ - ⟨rfl, collectedStands, sameState⟩
  cases next with
  | some next =>
      exact pushExpression known collectedStands (by exact sameState ▸ state) _ _
  | none =>
      refine bind
        (Keeps.callNative natives id arguments Bounds.cover_nil collectedStands.operands) ?_
      intro later value _ valueCovered
      exact produce valueCovered ty demand

variable (known : origin.node.lastState? setting.tree = some 2)

include known

/-- The call of a method once its receiver and arguments are known. -/
theorem invoke
    {slot : Option MethodSlot}
    {target : MethodImpl}
    {arguments : List ExprId}
    (stands : frame.Stands floor origin) :
    Plays setting.tree floor origin
      (Step.invoke setting frame slot target arguments ty demand) := by
  have receiverCovered : floor.Cover (frame.values.head?.toList.flatMap Value.refs) := by
    simp only [Bounds.cover_flatMap, Option.mem_toList]
    exact fun value found => stands.operands value (List.mem_of_head? found)
  have argumentsCovered : ∀ value ∈ frame.values.drop 1, floor.Cover value.refs :=
    fun value member => stands.operands value (List.mem_of_mem_drop member)
  refine bind (Keeps.receiver receiverCovered) ?_
  rintro _ this - ⟨rfl, within⟩
  cases target with
  | user declared =>
      refine bind Keeps.heap ?_
      rintro _ heap - ⟨rfl, -, -⟩
      exact enterFunction known
        (by exact stands.withValues fun value member => absurd member (by simp))
        (UInt32.le_refl 2) (by simpa using within) argumentsCovered
  | native id =>
      refine bind
        (Keeps.callNative natives id arguments (by simpa using within) argumentsCovered) ?_
      intro later value _ valueCovered
      exact produce valueCovered ty demand

/-- A call of a method. -/
theorem methodCall
    {object : ExprId}
    {slot : Option MethodSlot}
    {target : MethodImpl}
    {arguments : List ExprId}
    (stands : frame.Stands floor origin)
    (state : frame.state ≤ 2)
    (covered : floor.Cover (incoming.toList.flatMap Completion.refs)) :
    Plays setting.tree floor origin
      (Step.methodCall setting frame object slot target arguments ty demand incoming) := by
  unfold Step.methodCall
  split
  · exact pushExpression known (by exact stands) (by decide : (1 : UInt32) ≤ 2) _ _
  · refine bind (Keeps.collect stands arguments covered) ?_
    rintro _ ⟨collected, next⟩ - ⟨rfl, collectedStands, sameState⟩
    cases next with
    | some next =>
        exact pushExpression known collectedStands (by exact sameState ▸ state) _ _
    | none => exact invoke natives known collectedStands
  · exact produceIncoming covered

/-- The call of a constructor. -/
theorem construct
    {constructor : Option MethodImpl}
    {arguments : List ExprId}
    (stands : frame.Stands floor origin) :
    Plays setting.tree floor origin
      (Step.construct setting frame constructor arguments ty demand) := by
  have argumentsCovered : ∀ value ∈ frame.values.dropLast, floor.Cover value.refs :=
    fun value member => stands.operands value (List.mem_of_mem_dropLast member)
  refine bind (Keeps.require _ _) ?_
  rintro _ last - ⟨rfl, found⟩
  have lastCovered := stands.operands last (List.mem_of_getLast? found)
  refine bind (Keeps.receiver (by simpa using lastCovered)) ?_
  rintro _ this - ⟨rfl, within⟩
  have thisCovered : floor.Cover (Value.object this).refs := by simpa [Value.refs] using within
  obtain _ | id | id := constructor
  · exact produce thisCovered ty demand
  · exact enterFunction known
      (by exact stands.withValues fun value member => List.mem_singleton.mp member ▸ thisCovered)
      (UInt32.le_refl 2) (by simpa using within) argumentsCovered
  · refine bind
      (Keeps.callNative natives id arguments (by simpa using within) argumentsCovered) ?_
    intro later value grown _
    exact produce (thisCovered.mono grown) ty demand

/-- A new instance. -/
theorem newInstance
    {owner : ClassId}
    {constructor : Option MethodImpl}
    {arguments : List ExprId}
    (stands : frame.Stands floor origin)
    (state : frame.state ≤ 2)
    (covered : floor.Cover (incoming.toList.flatMap Completion.refs)) :
    Plays setting.tree floor origin
      (Step.newInstance setting frame owner constructor arguments ty demand incoming) := by
  unfold Step.newInstance
  split
  · refine bind (Keeps.collect stands arguments covered) ?_
    rintro _ ⟨collected, next⟩ - ⟨rfl, collectedStands, sameState⟩
    cases next with
    | some next =>
        exact pushExpression known collectedStands (by exact sameState ▸ state) _ _
    | none =>
        refine bind (Keeps.require _ _) ?_
        rintro _ layout - ⟨rfl, found⟩
        refine bind (Keeps.newInstance found) ?_
        intro later object grown within
        refine pushOwner known ?_ (by decide : (1 : UInt32) ≤ 2) rfl setting ⟨?_, ?_⟩
        · refine (collectedStands.mono grown).withValues fun value member => ?_
          rcases List.mem_append.mp member with old | new
          · exact (collectedStands.operands value old).mono grown
          · exact List.mem_singleton.mp new ▸ by simpa [Value.refs] using within
        · simpa [Activation.refs, Activation.bare] using within
        · simp [Activation.bare]
  · refine bind (Keeps.settle covered) ?_
    rintro _ _ - ⟨rfl, -⟩
    exact construct natives known stands
  · refine bind (Keeps.valueOf covered) ?_
    rintro _ _ - ⟨rfl, -⟩
    refine bind (Keeps.receiver ?_) ?_
    · simp only [Bounds.cover_flatMap, Option.mem_toList]
      exact fun value found => stands.operands value (List.mem_of_getLast? found)
    · rintro _ this - ⟨rfl, within⟩
      exact produce (by simpa [Value.refs] using within) ty demand

end Natives

/-- An element of an array. -/
theorem element
    (stands : frame.Stands floor origin)
    (covered : floor.Cover (incoming.toList.flatMap Completion.refs)) :
    Plays tree floor origin (Step.element frame demand incoming) := by
  refine bind (Keeps.indexOf covered) ?_
  rintro _ position - ⟨rfl, -⟩
  cases demand with
  | place =>
      refine bind (Keeps.require _ _) ?_
      rintro _ holder - ⟨rfl, -⟩
      refine bind (Keeps.arrayForWrite holder) ?_
      rintro later array - -
      refine bind Keeps.heap ?_
      rintro _ heap - ⟨rfl, -, -⟩
      refine bind (Keeps.ofExcept fun _ found => Heap.Sound.positionForWrite_le found) ?_
      rintro _ position - ⟨rfl, fits⟩
      refine bind (Keeps.growTo array fits) ?_
      rintro latest cell - within
      refine bind (Keeps.require _ _) ?_
      rintro _ cell - ⟨rfl, found⟩
      exact complete (by simpa [Completion.refs] using within cell found)
  | value =>
      dsimp only
      split
      · next array _ =>
          refine bind Keeps.heap ?_
          rintro _ heap - ⟨rfl, sound, rfl⟩
          refine bind (Keeps.ofExcept fun cell found => (sound.array array).get found) ?_
          rintro _ cell - ⟨rfl, within⟩
          exact deliver within _
      · exact raise _
      · exact raise _

/-- The item of an array that comes next, or the array with all its items. -/
private theorem itemNext
    {items : List ExprId}
    (known : origin.node.lastState? tree = some 0)
    (stands : frame.Stands floor origin)
    (state : frame.state ≤ 0)
    (element : Ty)
    {values : List Value}
    (kept : ∀ value ∈ values, floor.Cover value.refs) :
    Plays tree floor origin
      (match items[frame.cursor.toNat]? with
      | some next =>
          Pure.pure
            (Step.pushExpression { frame with values, cursor := frame.cursor + 1 } next .value)
      | none => do
          if ArrayData.greatestIndex + 1 < values.length then
            Step.raise .outsideArray
          let id ← Step.allocate fun heap =>
            let (cells, heap) :=
              heap.addCells (values.map fun value => Cell.withValue element value)
            heap.addArray ⟨element, [], cells⟩
          Step.produce (.array id) ty demand) := by
  split
  · exact pushExpression known (by exact stands.withValues kept) (by exact state) _ _
  · split
    · refine bind (Keeps.raise (P := fun _ _ => False) _) ?_
      exact fun _ _ _ never => never.elim
    · next fits =>
        refine bind (Keeps.addItems kept (by omega)) ?_
        intro later array _ within
        exact produce (by simpa [Value.refs] using within) ty demand

/-- The literal of an array. -/
theorem arrayLiteral
    {items : List ExprId}
    (known : origin.node.lastState? tree = some 0)
    (stands : frame.Stands floor origin)
    (state : frame.state ≤ 0)
    (covered : floor.Cover (incoming.toList.flatMap Completion.refs)) :
    Plays tree floor origin (Step.arrayLiteral tree frame items ty demand incoming) := by
  refine bind (Keeps.require _ _) ?_
  rintro _ element - ⟨rfl, -⟩
  cases incoming with
  | none => exact itemNext known stands state element stands.operands
  | some completion =>
      refine bind (Keeps.valueOf covered) ?_
      rintro _ item - ⟨rfl, itemCovered⟩
      refine bind (Keeps.require _ _) ?_
      rintro _ id - ⟨rfl, -⟩
      refine bind (Keeps.typeOf id) ?_
      rintro _ source - ⟨rfl, -⟩
      refine bind (Keeps.convert itemCovered source element) ?_
      rintro _ converted - ⟨rfl, convertedCovered⟩
      refine itemNext known stands state element fun value member => ?_
      rcases List.mem_append.mp member with old | new
      · exact stands.operands value old
      · exact List.mem_singleton.mp new ▸ convertedCovered

/-- The last step of an expression of the tree. -/
theorem lastState_expression
    {id : ExprId}
    {demand : Demand}
    {node : Expr}
    (isNode : origin.node = .expression id demand)
    (found : tree.expr? id = some node) :
    origin.node.lastState? tree = some node.kind.lastState := by
  simp [isNode, Node.lastState?, found]

/-- An expression. -/
theorem expression
    (natives : setting.registry.KeepsHeaps setting.tree)
    {id : ExprId}
    (isNode : origin.node = .expression id demand)
    (stands : frame.Stands floor origin)
    (within : frame.WithinStates setting.tree)
    (covered : floor.Cover (incoming.toList.flatMap Completion.refs)) :
    Plays setting.tree floor origin
      (Step.expression setting frame id demand incoming) := by
  refine bind (Keeps.part _) ?_
  rintro _ node - ⟨rfl, found⟩
  have known := lastState_expression isNode found
  have state : frame.state ≤ node.kind.lastState :=
    within _ (by simp [stands.1, isNode, Node.lastState?, found])
  obtain ⟨kind, ty, span⟩ := node
  cases kind with
  | literal value => exact produce (by cases value <;> simp [Value.ofLiteral, Value.refs]) ty demand
  | localVar slot =>
      refine bind (Keeps.activationOf frame) ?_
      rintro _ activation - ⟨rfl, activationSound⟩
      refine bind (Keeps.require _ _) ?_
      rintro _ cell - ⟨rfl, cellFound⟩
      exact deliver (activationSound.local cellFound) demand
  | this =>
      refine bind (Keeps.activationOf frame) ?_
      rintro _ activation - ⟨rfl, activationSound⟩
      exact produce activationSound.receiver ty demand
  | field object index =>
      dsimp only
      split
      · exact pushExpression known (by exact stands) (UInt32.le_refl 1) _ _
      · refine bind (Keeps.valueOf covered) ?_
        rintro _ value - ⟨rfl, valueCovered⟩
        refine bind (Keeps.receiver (by simpa using valueCovered)) ?_
        rintro _ this - ⟨rfl, -⟩
        refine bind Keeps.heap ?_
        rintro _ heap - ⟨rfl, sound, rfl⟩
        refine bind (Keeps.require _ _) ?_
        rintro _ cell - ⟨rfl, cellFound⟩
        exact deliver (sound.fields this cell (Array.mem_of_getElem? cellFound)) demand
  | staticField owner index =>
      refine bind Keeps.get ?_
      rintro _ memory - ⟨rfl, sound, rfl⟩
      refine bind (Keeps.require _ _) ?_
      rintro _ cell - ⟨rfl, cellFound⟩
      exact deliver (sound.static cellFound) demand
  | index array position =>
      dsimp only
      split
      · exact pushExpression known (by exact stands) (by decide : (1 : UInt32) ≤ 2) _ _
      · refine bind (Keeps.placeOf covered) ?_
        rintro _ cell - ⟨rfl, cellWithin⟩
        exact pushExpression known (by exact stands.withTarget cellWithin) (UInt32.le_refl 2) _ _
      · refine bind (Keeps.valueOf covered) ?_
        rintro _ value - ⟨rfl, valueCovered⟩
        exact pushExpression known
          (by exact stands.withValues fun other member =>
            List.mem_singleton.mp member ▸ valueCovered)
          (UInt32.le_refl 2) _ _
      · exact element stands covered
  | assign op common target source =>
      dsimp only
      split
      · exact pushExpression known (by exact stands) (by decide : (1 : UInt32) ≤ 2) _ _
      · refine bind (Keeps.placeOf covered) ?_
        rintro _ cell - ⟨rfl, cellWithin⟩
        exact pushExpression known (by exact stands.withTarget cellWithin) (UInt32.le_refl 2) _ _
      · refine bind (Keeps.valueOf covered) ?_
        rintro _ assigned - ⟨rfl, assignedCovered⟩
        refine bind (Keeps.require _ _) ?_
        rintro _ cell - ⟨rfl, -⟩
        refine bind (Keeps.typeOf source) ?_
        rintro _ sourceType - ⟨rfl, -⟩
        refine bind (Keeps.assignTo op common ty sourceType assignedCovered) ?_
        rintro _ _ - ⟨rfl, -⟩
        refine bind Keeps.heap ?_
        rintro _ heap - ⟨rfl, sound, rfl⟩
        exact produce (sound.cell cell) ty demand
  | step op target =>
      dsimp only
      split
      · exact pushExpression known (by exact stands) (UInt32.le_refl 1) _ _
      · refine bind (Keeps.placeOf covered) ?_
        rintro _ cell - ⟨rfl, -⟩
        refine bind (Keeps.read cell) ?_
        rintro _ before - ⟨rfl, beforeCovered⟩
        refine bind (Keeps.ofExcept fun after applied => op.apply_refs applied) ?_
        rintro _ after - ⟨rfl, plain⟩
        refine bind Keeps.heap ?_
        rintro _ heap - ⟨rfl, -, -⟩
        refine bind (Keeps.store (by simp [plain]) _) ?_
        rintro _ _ - ⟨rfl, -⟩
        refine produce ?_ ty demand
        split
        · exact beforeCovered
        · simp [plain]
  | binary op common left right =>
      dsimp only
      split
      · exact pushExpression known (by exact stands) (by decide : (1 : UInt32) ≤ 2) _ _
      · refine bind (Keeps.valueOf covered) ?_
        rintro _ value - ⟨rfl, valueCovered⟩
        exact pushExpression known
          (by exact stands.withValues fun other member =>
            List.mem_singleton.mp member ▸ valueCovered)
          (UInt32.le_refl 2) _ _
      · refine bind (Keeps.valueOf covered) ?_
        rintro _ value - ⟨rfl, valueCovered⟩
        refine bind (Keeps.typeOf right) ?_
        rintro _ rightType - ⟨rfl, -⟩
        refine bind (Keeps.operand valueCovered rightType common) ?_
        rintro _ second - ⟨rfl, -⟩
        refine bind (Keeps.require _ _) ?_
        rintro _ first - ⟨rfl, firstFound⟩
        have firstCovered := stands.operands first (List.mem_of_getLast? firstFound)
        refine bind (Keeps.typeOf left) ?_
        rintro _ leftType - ⟨rfl, -⟩
        refine bind (Keeps.operand firstCovered leftType common) ?_
        rintro _ first - ⟨rfl, -⟩
        refine bind (Keeps.ofExcept fun _ applied => op.apply_refs applied) ?_
        rintro _ result - ⟨rfl, plain⟩
        exact produce (by simp [plain]) ty demand
  | logical op left right =>
      dsimp only
      split
      · exact pushExpression known (by exact stands) (by decide : (1 : UInt32) ≤ 2) _ _
      · refine bind (Keeps.conditionOf covered) ?_
        rintro _ first - ⟨rfl, -⟩
        split
        · exact produce Bounds.cover_nil ty demand
        · exact pushExpression known (by exact stands) (UInt32.le_refl 2) _ _
      · refine bind (Keeps.conditionOf covered) ?_
        rintro _ second - ⟨rfl, -⟩
        exact produce Bounds.cover_nil ty demand
  | conditional condition whenTrue whenFalse =>
      dsimp only
      split
      · exact pushExpression known (by exact stands) (by decide : (1 : UInt32) ≤ 2) _ _
      · refine bind (Keeps.conditionOf covered) ?_
        rintro _ holds - ⟨rfl, -⟩
        split
        · exact pushExpression known (by exact stands) (UInt32.le_refl 2) _ _
        · exact pushExpression known (by exact stands) (UInt32.le_refl 2) _ _
      · refine bind (Keeps.valueOf covered) ?_
        rintro _ value - ⟨rfl, valueCovered⟩
        refine bind (Keeps.typeOf _) ?_
        rintro _ source - ⟨rfl, -⟩
        refine bind (Keeps.convert valueCovered source ty) ?_
        rintro _ converted - ⟨rfl, convertedCovered⟩
        exact produce convertedCovered ty demand
  | unary op operand =>
      dsimp only
      split
      · exact pushExpression known (by exact stands) (UInt32.le_refl 1) _ _
      · refine bind (Keeps.valueOf covered) ?_
        rintro _ value - ⟨rfl, valueCovered⟩
        refine bind (Keeps.ofExcept fun result applied => op.apply_refs applied) ?_
        rintro _ result - ⟨rfl, plain⟩
        exact produce (by simp [plain]) ty demand
  | call function arguments =>
      exact call known stands covered
  | nativeCall native arguments => exact nativeCall natives known stands state covered
  | methodCall object slot target arguments =>
      exact methodCall natives known stands state covered
  | new owner constructor arguments =>
      exact newInstance natives known stands state covered
  | arrayLiteral items => exact arrayLiteral known stands state covered

end Plays

end Step

end BotScript
