import BotScript.Proofs.LockstepStatement
import BotScript.Proofs.OperatorResult

namespace BotScript

/-!
# Expressions in lockstep

The step of an expression over an outer memory follows the step over the inner
one, if the natives of the host do the same on both.
-/

namespace Relocation

variable {shift : Relocation}

/-- A value that refers to nothing is the same on the outer heap. -/
theorem value_of_refs
    {value : Value}
    (plain : value.refs = []) :
    shift.value value = value := by
  cases value <;> first | rfl | simp [Value.refs] at plain

/-- Binary operators look at references only to compare them. -/
theorem apply_binary
    (op : BinaryOp)
    (ty : Ty)
    (left right : Value) :
    Agree (Renamed shift.value) (op.apply ty left right)
      (op.apply ty (shift.value left) (shift.value right)) := by
  have same :
      op.apply ty (shift.value left) (shift.value right) = op.apply ty left right := by
    simp only [BinaryOp.apply, BinaryOp.onNan, BinaryOp.onReferences, value_isNan,
      value_int?, value_float?, value_bool?, value_str?, value_equals]
  rw [same]
  cases applied : op.apply ty left right with
  | ok result =>
      exact .ok (value_of_refs (BinaryOp.apply_refs applied)).symm
  | error code => exact .error

/-- Prefix operators fail on references. -/
theorem apply_unary
    (op : UnaryOp)
    (ty : Ty)
    (value : Value) :
    Agree (Renamed shift.value) (op.apply ty value) (op.apply ty (shift.value value)) := by
  cases op <;> cases value <;> first | exact .error | exact .ok rfl

/-- Steps fail on references. -/
theorem apply_step
    (op : StepOp)
    (ty : Ty)
    (value : Value) :
    Agree (Renamed shift.value) (op.apply ty value) (op.apply ty (shift.value value)) := by
  cases value <;> first | exact .error | exact .ok rfl

end Relocation

namespace Step.Follows

variable {embedding : Embedding} {frame : Frame}

/-! ## Calls -/

/-- The argument that comes behind the values evaluated so far. -/
private theorem collectNext
    (frame : Frame)
    (arguments : List ExprId)
    (values : List Value) :
    Follows embedding
      (fun inner outer =>
        outer = (embedding.frame inner.1, inner.2) ∧ inner.1.act = frame.act)
      (match arguments[frame.cursor.toNat]? with
      | some next =>
          Pure.pure ({ frame with values, cursor := frame.cursor + 1 }, some next)
      | none => Pure.pure ({ frame with values }, none))
      (match arguments[(embedding.frame frame).cursor.toNat]? with
      | some next =>
          Pure.pure
            ({ embedding.frame frame with
                values := values.map embedding.value
                cursor := (embedding.frame frame).cursor + 1 },
              some next)
      | none =>
          Pure.pure
            ({ embedding.frame frame with values := values.map embedding.value }, none)) := by
  rw [Relocation.frame_cursor]
  split <;> exact pure ⟨rfl, rfl⟩

/-- The argument that has just been evaluated. -/
theorem collect
    (frame : Frame)
    (arguments : List ExprId)
    (incoming : Option Completion) :
    Follows embedding
      (fun inner outer =>
        outer = (embedding.frame inner.1, inner.2) ∧ inner.1.act = frame.act)
      (Step.collect frame arguments incoming)
      (Step.collect (embedding.frame frame) arguments
        (incoming.map embedding.completion)) := by
  cases incoming with
  | none => exact collectNext frame arguments frame.values
  | some completion =>
      refine (valueOf (some completion)).bind ?_
      rintro value _ rfl
      have appended : Follows embedding _ _ _ :=
        collectNext frame arguments (frame.values ++ [value])
      rw [List.map_append] at appended
      exact appended

/-- The instance that a receiver denotes. -/
theorem receiver
    (value : Option Value) :
    Follows embedding (Renamed embedding.object) (Step.receiver value)
      (Step.receiver (value.map embedding.value)) := by
  cases value with
  | none => exact raise _
  | some value => cases value <;> first | exact raise _ | exact pure rfl

/-- The cells of parameters that hold the arguments of a call. -/
theorem bindParams
    (tree : Tree)
    (params : List Param)
    (arguments : List ExprId)
    (values : List Value)
    (locals : Array CellId) :
    Follows embedding (Renamed (·.map embedding.cell))
      (Step.bindParams tree params arguments values locals)
      (Step.bindParams tree params arguments (values.map embedding.value)
        (locals.map embedding.cell)) := by
  induction params generalizing arguments values locals with
  | nil => exact pure rfl
  | cons param params inductionHypothesis =>
      match arguments, values with
      | [], _ => exact pure rfl
      | _ :: _, [] => exact pure rfl
      | argument :: arguments, value :: values =>
          refine (addDeclared param.ty).bind ?_
          rintro cell _ rfl
          refine (typeOf tree argument).bind ?_
          rintro source _ rfl
          refine (store cell value source).bind fun _ _ _ => ?_
          have bound :=
            inductionHypothesis arguments values (locals.setIfInBounds param.slot.index cell)
          rwa [Array.map_setIfInBounds] at bound

/-- The activation of a function whose parameters hold the arguments of a call. -/
theorem bindCall
    (setting : Setting)
    (id : FuncId)
    (this : Option ObjectId)
    (arguments : List ExprId)
    (values : List Value) :
    Follows embedding
      (fun inner outer => outer = inner ∧ embedding.innerBelow.size ≤ inner.toNat)
      (Step.bind setting id this arguments values)
      (Step.bind setting id (this.map embedding.object) arguments
        (values.map embedding.value)) := by
  refine (require_same _ _).bind ?_
  rintro function _ rfl
  refine (activationFor function id this).bind ?_
  rintro activation _ rfl
  refine (bindParams setting.tree function.params arguments values activation.locals).bind ?_
  rintro locals _ rfl
  exact pushActivation setting { activation with locals }

/-- Several static types. -/
theorem typesOf
    (tree : Tree)
    (ids : List ExprId) :
    Follows embedding Eq (ids.mapM (Step.typeOf tree)) (ids.mapM (Step.typeOf tree)) := by
  induction ids with
  | nil => exact pure rfl
  | cons id ids inductionHypothesis =>
      rw [List.mapM_cons]
      refine (typeOf tree id).bind ?_
      rintro ty _ rfl
      refine inductionHypothesis.bind ?_
      rintro types _ rfl
      exact pure rfl

/-- A frame on top of a frame that is in sight. -/
theorem push
    {child : Frame}
    (visible : embedding.innerBelow.size ≤ frame.act.toNat)
    (childVisible : embedding.innerBelow.size ≤ child.act.toNat) :
    Follows embedding embedding.Moves (Pure.pure (.push frame child))
      (Pure.pure (.push (embedding.frame frame) (embedding.frame child))) :=
  pure ⟨rfl, visible, childVisible⟩

/-- The delivered value of a finished call. -/
theorem produceIncoming
    (ty : Ty)
    (demand : Demand)
    (incoming : Option Completion) :
    Follows embedding embedding.Moves
      (do Step.produce (← Step.valueOf incoming) ty demand)
      (do Step.produce (← Step.valueOf (incoming.map embedding.completion)) ty demand) := by
  refine (valueOf incoming).bind ?_
  rintro value _ rfl
  exact produce value ty demand

/-- A call of a function of the program. -/
theorem call
    (setting : Setting)
    (visible : embedding.innerBelow.size ≤ frame.act.toNat)
    (id : FuncId)
    (arguments : List ExprId)
    (ty : Ty)
    (demand : Demand)
    (incoming : Option Completion) :
    Follows embedding embedding.Moves
      (Step.call setting frame id arguments ty demand incoming)
      (Step.call setting (embedding.frame frame) id arguments ty demand
        (incoming.map embedding.completion)) := by
  unfold Step.call
  rw [Relocation.frame_state]
  split
  · refine (collect frame arguments incoming).bind ?_
    rintro ⟨collected, next⟩ _ ⟨rfl, sameAct⟩
    have stillVisible : embedding.innerBelow.size ≤ collected.act.toNat := sameAct ▸ visible
    cases next with
    | some next => exact pushExpression stillVisible next .value
    | none =>
        refine (bindCall setting id none arguments collected.values).bind ?_
        rintro _ act ⟨rfl, above⟩
        exact push (by exact stillVisible) above
  · exact produceIncoming ty demand incoming

section Natives

variable {setting : Setting} (natives : setting.registry.Respects embedding.toRelocation)

include natives

/-- A call of a native. -/
theorem callNative
    (id : NativeId)
    (this : Option ObjectId)
    (arguments : List ExprId)
    (values : List Value) :
    Follows embedding (Renamed embedding.value)
      (Step.callNative setting id this arguments values)
      (Step.callNative setting id (this.map embedding.object) arguments
        (values.map embedding.value)) := by
  refine (typesOf setting.tree arguments).bind ?_
  rintro types _ rfl
  exact ofAction (natives id ⟨this, values, types⟩)

variable (visible : embedding.innerBelow.size ≤ frame.act.toNat)

include visible

/-- A call of a function of the host. -/
theorem nativeCall
    (id : NativeId)
    (arguments : List ExprId)
    (ty : Ty)
    (demand : Demand)
    (incoming : Option Completion) :
    Follows embedding embedding.Moves
      (Step.nativeCall setting frame id arguments ty demand incoming)
      (Step.nativeCall setting (embedding.frame frame) id arguments ty demand
        (incoming.map embedding.completion)) := by
  refine (collect frame arguments incoming).bind ?_
  rintro ⟨collected, next⟩ _ ⟨rfl, sameAct⟩
  have stillVisible : embedding.innerBelow.size ≤ collected.act.toNat := sameAct ▸ visible
  cases next with
  | some next => exact pushExpression stillVisible next .value
  | none =>
      refine (callNative natives id none arguments collected.values).bind ?_
      rintro value _ rfl
      exact produce value ty demand

/-- The call of a method once its receiver and arguments are known. -/
theorem invoke
    (slot : Option MethodSlot)
    (target : MethodImpl)
    (arguments : List ExprId)
    (ty : Ty)
    (demand : Demand) :
    Follows embedding embedding.Moves
      (Step.invoke setting frame slot target arguments ty demand)
      (Step.invoke setting (embedding.frame frame) slot target arguments ty demand) := by
  unfold Step.invoke
  rw [Relocation.frame_values, List.head?_map]
  refine (receiver frame.values.head?).bind ?_
  rintro this _ rfl
  rw [← List.map_drop]
  cases target with
  | user declared =>
      refine heap.bind fun inner outer embeds => ?_
      rw [embeds.object, Relocation.fields_layout]
      refine (bindCall setting _ (some this) arguments (frame.values.drop 1)).bind ?_
      rintro _ act ⟨rfl, above⟩
      exact push (by exact visible) above
  | native id =>
      refine (callNative natives id (some this) arguments (frame.values.drop 1)).bind ?_
      rintro value _ rfl
      exact produce value ty demand

/-- A call of a method. -/
theorem methodCall
    (object : ExprId)
    (slot : Option MethodSlot)
    (target : MethodImpl)
    (arguments : List ExprId)
    (ty : Ty)
    (demand : Demand)
    (incoming : Option Completion) :
    Follows embedding embedding.Moves
      (Step.methodCall setting frame object slot target arguments ty demand incoming)
      (Step.methodCall setting (embedding.frame frame) object slot target arguments ty demand
        (incoming.map embedding.completion)) := by
  unfold Step.methodCall
  rw [Relocation.frame_state]
  split
  · exact pushExpression (by exact visible) object .value
  · refine (collect frame arguments incoming).bind ?_
    rintro ⟨collected, next⟩ _ ⟨rfl, sameAct⟩
    have stillVisible : embedding.innerBelow.size ≤ collected.act.toNat := sameAct ▸ visible
    cases next with
    | some next => exact pushExpression stillVisible next .value
    | none => exact invoke natives stillVisible slot target arguments ty demand
  · exact produceIncoming ty demand incoming

/-- The call of a constructor. -/
theorem construct
    (constructor : Option MethodImpl)
    (arguments : List ExprId)
    (ty : Ty)
    (demand : Demand) :
    Follows embedding embedding.Moves
      (Step.construct setting frame constructor arguments ty demand)
      (Step.construct setting (embedding.frame frame) constructor arguments ty demand) := by
  unfold Step.construct
  rw [Relocation.frame_values, List.getLast?_map, ← List.map_dropLast]
  refine (require _ frame.values.getLast?).bind ?_
  rintro last _ rfl
  refine (receiver (some last)).bind ?_
  rintro this _ rfl
  match constructor with
  | none => exact produce (.object this) ty demand
  | some (.user id) =>
      refine (bindCall setting id (some this) arguments frame.values.dropLast).bind ?_
      rintro _ act ⟨rfl, above⟩
      exact push (by exact visible) above
  | some (.native id) =>
      refine (callNative natives id (some this) arguments frame.values.dropLast).bind
        fun _ _ _ => ?_
      exact produce (.object this) ty demand

/-- A new instance. -/
theorem newInstance
    (owner : ClassId)
    (constructor : Option MethodImpl)
    (arguments : List ExprId)
    (ty : Ty)
    (demand : Demand)
    (incoming : Option Completion) :
    Follows embedding embedding.Moves
      (Step.newInstance setting frame owner constructor arguments ty demand incoming)
      (Step.newInstance setting (embedding.frame frame) owner constructor arguments ty demand
        (incoming.map embedding.completion)) := by
  unfold Step.newInstance
  rw [Relocation.frame_state]
  split
  · refine (collect frame arguments incoming).bind ?_
    rintro ⟨collected, next⟩ _ ⟨rfl, sameAct⟩
    have stillVisible : embedding.innerBelow.size ≤ collected.act.toNat := sameAct ▸ visible
    cases next with
    | some next => exact pushExpression stillVisible next .value
    | none =>
        refine (require_same _ _).bind ?_
        rintro layout _ rfl
        refine (allocate (R := Renamed embedding.object) fun _ _ embeds =>
          embeds.newInstance layout).bind ?_
        rintro object _ rfl
        have bare :
            Activation.bare (some (embedding.object object)) =
              embedding.activation (.bare (some object)) := by
          simp [Activation.bare, Relocation.activation]
        rw [bare]
        refine (pushActivation setting (.bare (some object))).bind ?_
        rintro _ act ⟨rfl, above⟩
        have pushed : Follows embedding embedding.Moves
            (Pure.pure
              (.push
                { collected with values := collected.values ++ [.object object], state := 1 }
                (.enter (.fieldSetup owner) act))) _ :=
          push (by exact stillVisible) above
        rw [Relocation.frame_enter] at pushed
        simpa [Relocation.frame] using pushed
  · refine (settle incoming).bind fun _ _ _ => ?_
    exact construct natives visible constructor arguments ty demand
  · refine (valueOf incoming).bind fun _ _ _ => ?_
    rw [Relocation.frame_values, List.getLast?_map]
    refine (receiver frame.values.getLast?).bind ?_
    rintro object _ rfl
    exact produce (.object object) ty demand

end Natives

/-! ## Places and elements -/

/-- The array a write through a cell goes to. -/
theorem arrayForWrite
    (holder : CellId) :
    Follows embedding (Renamed embedding.array) (Step.arrayForWrite holder)
      (Step.arrayForWrite (embedding.cell holder)) := by
  refine heap.bind fun inner outer embeds => ?_
  rw [embeds.cell]
  obtain ⟨ty, value, state⟩ := inner.cell holder
  cases value with
  | array id => exact pure rfl
  | null =>
      refine (require_same _ ty.element?).bind ?_
      rintro element _ rfl
      refine (allocate (R := Renamed embedding.array) fun _ _ embeds => ?_).bind ?_
      · have added := embeds.addArray (.empty element [])
        rwa [Relocation.elements_empty] at added
      · rintro array _ rfl
        refine (store holder (.array array) ty).bind fun _ _ _ => ?_
        exact pure rfl
  | _ => exact raise _

/-- The position that an index expression has delivered. -/
theorem indexOf
    (incoming : Option Completion) :
    Follows embedding Eq (Step.indexOf incoming)
      (Step.indexOf (incoming.map embedding.completion)) := by
  refine (valueOf incoming).bind ?_
  rintro value _ rfl
  cases value with
  | nan => exact raise _
  | int number => exact pure rfl
  | float number => exact pure rfl
  | _ => exact raise _

/-- An element of an array. -/
theorem element
    (demand : Demand)
    (incoming : Option Completion) :
    Follows embedding embedding.Moves (Step.element frame demand incoming)
      (Step.element (embedding.frame frame) demand (incoming.map embedding.completion)) := by
  refine (indexOf incoming).bind ?_
  rintro position _ rfl
  cases demand with
  | place =>
      refine (require _ frame.place).bind ?_
      rintro holder _ rfl
      refine (arrayForWrite holder).bind ?_
      rintro array _ rfl
      refine heap.bind fun inner outer embeds => ?_
      rw [embeds.positionForWrite]
      refine (ofExcept (R := Eq) (.refl (fun _ => rfl) _)).bind ?_
      rintro position _ rfl
      refine (allocate (R := Renamed (Option.map embedding.cell)) fun _ _ embeds =>
        embeds.growTo array position).bind ?_
      rintro cell _ rfl
      refine (require _ cell).bind ?_
      rintro cell _ rfl
      exact complete (.place cell)
  | value =>
      dsimp only
      rw [Relocation.frame_values, List.getLast?_map]
      cases frame.values.getLast? with
      | none => exact raise _
      | some value =>
          cases value with
          | array id =>
              refine heap.bind fun inner outer embeds => ?_
              refine (ofExcept (R := Renamed embedding.cell) ?_).bind ?_
              · rw [embeds.array]
                exact Relocation.elements_get _ position
              · rintro cell _ rfl
                exact deliver cell .value
          | _ => exact raise _

/-- The store of an assignment. -/
theorem assignTo
    (cell : CellId)
    (op : Option BinaryOp)
    (common ty source : Ty)
    (assigned : Value) :
    Follows embedding Eq (Step.assignTo cell op common ty source assigned)
      (Step.assignTo (embedding.cell cell) op common ty source
        (embedding.value assigned)) := by
  cases op with
  | none => exact store cell assigned source
  | some op =>
      refine (read cell).bind ?_
      rintro current _ rfl
      refine (operand current ty common).bind ?_
      rintro left _ rfl
      refine (operand assigned source common).bind ?_
      rintro right _ rfl
      refine (ofExcept (Relocation.apply_binary op common left right)).bind ?_
      rintro result _ rfl
      exact store cell result common

/-- The item of an array that comes next, or the array with all its items. -/
private theorem literalNext
    (visible : embedding.innerBelow.size ≤ frame.act.toNat)
    (items : List ExprId)
    (ty : Ty)
    (demand : Demand)
    (element : Ty)
    (values : List Value) :
    Follows embedding embedding.Moves
      (match items[frame.cursor.toNat]? with
      | some next =>
          Pure.pure
            (Step.pushExpression { frame with values, cursor := frame.cursor + 1 } next .value)
      | none => do
          if ArrayData.greatestIndex + 1 < values.length then Step.raise .outsideArray
          let id ← Step.allocate fun heap =>
            let (cells, heap) :=
              heap.addCells (values.map fun value => Cell.withValue element value)
            heap.addArray ⟨element, [], cells⟩
          Step.produce (.array id) ty demand)
      (match items[(embedding.frame frame).cursor.toNat]? with
      | some next =>
          Pure.pure
            (Step.pushExpression
              { embedding.frame frame with
                values := values.map embedding.value
                cursor := (embedding.frame frame).cursor + 1 }
              next .value)
      | none => do
          if ArrayData.greatestIndex + 1 < (values.map embedding.value).length then
            Step.raise .outsideArray
          let id ← Step.allocate fun heap =>
            let (cells, heap) :=
              heap.addCells
                ((values.map embedding.value).map fun value => Cell.withValue element value)
            heap.addArray ⟨element, [], cells⟩
          Step.produce (.array id) ty demand) := by
  rw [Relocation.frame_cursor, List.length_map]
  split
  · exact pushExpression (by exact visible) _ .value
  · split
    · exact (raise (R := fun _ _ => False) _).bind fun _ _ never => never.elim
    · refine (allocate (R := Renamed embedding.array) fun _ _ embeds => ?_).bind ?_
      · obtain ⟨same, after⟩ :=
          embeds.addCells (values.map fun value => Cell.withValue element value)
        have stored :
            (values.map fun value => Cell.withValue element value).map embedding.content =
              (values.map embedding.value).map fun value => Cell.withValue element value := by
          simp [Function.comp_def]
        rw [stored] at same after
        dsimp only
        rw [same]
        exact after.addArray ⟨element, [], _⟩
      · rintro array _ rfl
        exact produce (.array array) ty demand

/-- The literal of an array. -/
theorem arrayLiteral
    (tree : Tree)
    (visible : embedding.innerBelow.size ≤ frame.act.toNat)
    (items : List ExprId)
    (ty : Ty)
    (demand : Demand)
    (incoming : Option Completion) :
    Follows embedding embedding.Moves
      (Step.arrayLiteral tree frame items ty demand incoming)
      (Step.arrayLiteral tree (embedding.frame frame) items ty demand
        (incoming.map embedding.completion)) := by
  refine (require_same _ ty.element?).bind ?_
  rintro element _ rfl
  cases incoming with
  | none => exact literalNext visible items ty demand element frame.values
  | some completion =>
      refine (valueOf (some completion)).bind ?_
      rintro item _ rfl
      refine (require_same _ items[frame.cursor.toNat - 1]?).bind ?_
      rintro id _ rfl
      refine (typeOf tree id).bind ?_
      rintro source _ rfl
      refine (convert item source element).bind ?_
      rintro item _ rfl
      have appended := literalNext visible items ty demand element (frame.values ++ [item])
      have shape :
          (frame.values ++ [item]).map embedding.value =
            (embedding.frame frame).values ++ [embedding.value item] := by
        simp
      rw [shape] at appended
      exact appended

/-! ## Expressions -/

/-- An expression. -/
theorem expression
    {setting : Setting}
    (natives : setting.registry.Respects embedding.toRelocation)
    (visible : embedding.innerBelow.size ≤ frame.act.toNat)
    (id : ExprId)
    (demand : Demand)
    (incoming : Option Completion) :
    Follows embedding embedding.Moves
      (Step.expression setting frame id demand incoming)
      (Step.expression setting (embedding.frame frame) id demand
        (incoming.map embedding.completion)) := by
  refine (part _).bind ?_
  rintro ⟨kind, ty, span⟩ _ rfl
  cases kind with
  | literal value =>
      have delivered : Follows embedding _ _ _ := produce (.ofLiteral value) ty demand
      rwa [Relocation.value_ofLiteral] at delivered
  | localVar slot =>
      refine (activationOf visible).bind ?_
      rintro activation _ rfl
      have cell :
          (embedding.activation activation).locals[slot.index]? =
            activation.locals[slot.index]?.map embedding.cell := by
        simp [Relocation.activation]
      rw [cell]
      refine (require _ _).bind ?_
      rintro cell _ rfl
      exact deliver cell demand
  | this =>
      refine (activationOf visible).bind ?_
      rintro activation _ rfl
      have receiver :
          ((embedding.activation activation).this.map Value.object).getD .null =
            embedding.value ((activation.this.map Value.object).getD .null) := by
        cases shape : activation.this <;> simp [Relocation.activation, shape]
      rw [receiver]
      exact produce _ ty demand
  | field object index =>
      dsimp only
      rw [Relocation.frame_state]
      split
      · exact pushExpression (by exact visible) object .value
      · refine (valueOf incoming).bind ?_
        rintro value _ rfl
        refine (receiver (some value)).bind ?_
        rintro object _ rfl
        refine heap.bind fun inner outer embeds => ?_
        rw [embeds.object, Relocation.fields_fields, Array.getElem?_map]
        refine (require _ _).bind ?_
        rintro cell _ rfl
        exact deliver cell demand
  | staticField owner index =>
      refine get.bind fun inner outer embeds => ?_
      have cell :
          ((outer.statics[owner.index]?).getD #[])[index.toNat]? =
            ((inner.statics[owner.index]?).getD #[])[index.toNat]?.map embedding.cell := by
        rw [embeds.statics, Array.getElem?_map]
        cases inner.statics[owner.index]? <;> simp
      dsimp only
      rw [cell]
      refine (require _ _).bind ?_
      rintro cell _ rfl
      exact deliver cell demand
  | index array position =>
      dsimp only
      rw [Relocation.frame_state]
      split
      · exact pushExpression (by exact visible) array _
      · refine (placeOf incoming).bind ?_
        rintro cell _ rfl
        exact pushExpression (by exact visible) position .value
      · refine (valueOf incoming).bind ?_
        rintro value _ rfl
        exact pushExpression (by exact visible) position .value
      · exact element _ incoming
  | assign op common target source =>
      dsimp only
      rw [Relocation.frame_state]
      split
      · exact pushExpression (by exact visible) target .place
      · refine (placeOf incoming).bind ?_
        rintro cell _ rfl
        exact pushExpression (by exact visible) source .value
      · refine (valueOf incoming).bind ?_
        rintro assigned _ rfl
        rw [Relocation.frame_place]
        refine (require _ frame.place).bind ?_
        rintro cell _ rfl
        refine (typeOf _ source).bind ?_
        rintro sourceType _ rfl
        refine (assignTo cell op common ty sourceType assigned).bind fun _ _ _ => ?_
        refine heap.bind fun inner outer embeds => ?_
        rw [embeds.cell]
        exact produce _ ty demand
  | step op target =>
      dsimp only
      rw [Relocation.frame_state]
      split
      · exact pushExpression (by exact visible) target .place
      · refine (placeOf incoming).bind ?_
        rintro cell _ rfl
        refine (read cell).bind ?_
        rintro before _ rfl
        refine (ofExcept (Relocation.apply_step op ty before)).bind ?_
        rintro after _ rfl
        refine heap.bind fun inner outer embeds => ?_
        rw [embeds.cell]
        refine (store cell after _).bind fun _ _ _ => ?_
        split
        · exact produce before ty demand
        · exact produce after ty demand
  | binary op common left right =>
      dsimp only
      rw [Relocation.frame_state]
      split
      · exact pushExpression (by exact visible) left .value
      · refine (valueOf incoming).bind ?_
        rintro value _ rfl
        exact pushExpression (by exact visible) right .value
      · refine (valueOf incoming).bind ?_
        rintro second _ rfl
        refine (typeOf _ right).bind ?_
        rintro rightType _ rfl
        refine (operand second rightType common).bind ?_
        rintro second _ rfl
        rw [Relocation.frame_values, List.getLast?_map]
        refine (require _ frame.values.getLast?).bind ?_
        rintro first _ rfl
        refine (typeOf _ left).bind ?_
        rintro leftType _ rfl
        refine (operand first leftType common).bind ?_
        rintro first _ rfl
        refine (ofExcept (Relocation.apply_binary op common first second)).bind ?_
        rintro result _ rfl
        exact produce result ty demand
  | logical op left right =>
      dsimp only
      rw [Relocation.frame_state]
      split
      · exact pushExpression (by exact visible) left .value
      · refine (conditionOf incoming).bind ?_
        rintro first _ rfl
        split
        · exact produce (.bool first) ty demand
        · exact pushExpression (by exact visible) right .value
      · refine (conditionOf incoming).bind ?_
        rintro flag _ rfl
        exact produce (.bool flag) ty demand
  | conditional condition whenTrue whenFalse =>
      dsimp only
      rw [Relocation.frame_state, Relocation.frame_aux]
      split
      · exact pushExpression (by exact visible) condition .value
      · refine (conditionOf incoming).bind ?_
        rintro holds _ rfl
        split
        · exact pushExpression (by exact visible) whenTrue .value
        · exact pushExpression (by exact visible) whenFalse .value
      · refine (valueOf incoming).bind ?_
        rintro value _ rfl
        refine (typeOf _ _).bind ?_
        rintro source _ rfl
        refine (convert value source ty).bind ?_
        rintro result _ rfl
        exact produce result ty demand
  | unary op operand =>
      dsimp only
      rw [Relocation.frame_state]
      split
      · exact pushExpression (by exact visible) operand .value
      · refine (valueOf incoming).bind ?_
        rintro value _ rfl
        refine (ofExcept (Relocation.apply_unary op ty value)).bind ?_
        rintro result _ rfl
        exact produce result ty demand
  | call function arguments =>
      exact call setting visible function arguments ty demand incoming
  | nativeCall native arguments =>
      exact nativeCall natives visible native arguments ty demand incoming
  | methodCall object slot target arguments =>
      exact methodCall natives visible object slot target arguments ty demand incoming
  | new owner constructor arguments =>
      exact newInstance natives visible owner constructor arguments ty demand incoming
  | arrayLiteral items =>
      exact arrayLiteral setting.tree visible items ty demand incoming

end Step.Follows

end BotScript
