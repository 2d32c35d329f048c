import BotScript.Proofs.OutlineSteps

namespace BotScript

/-!
# Moves of expressions and of the frames that own activations

An expression delivers what its frame was pushed for, a value or a place, or
ends with an exception.  A call adds the activation of the function it runs
right before it pushes the frame of that function.
-/

namespace Step

variable {α : Type} {setting : Setting} {held : List Outline} {node : Node}
  {origin frame : Frame} {incoming : Option Completion}

/-! ## Parts of calls and expressions -/

namespace Retains

/-- The argument that has just been evaluated. -/
theorem collect
    (handsOn : HandsOn node incoming)
    (arguments : List ExprId) :
    Retains held node (fun collected => collected.1.Stays frame)
      (Step.collect frame arguments incoming) := by
  have chosen (values : List Value) :
      Retains held node (fun collected => collected.1.Stays frame)
        (Step.collect { frame with values } arguments none) := by
    unfold Step.collect
    simp only [pure_bind]
    split
    · exact pure ⟨rfl, rfl⟩
    · exact pure ⟨rfl, rfl⟩
  cases incoming with
  | none => exact chosen frame.values
  | some completion => exact (valueOf handsOn).bind fun value _ => chosen (frame.values ++ [value])

/-- The instance that a receiver denotes. -/
theorem receiver
    (value : Option Value) :
    Retains held node (fun _ => True) (Step.receiver value) := by
  unfold Step.receiver
  split
  · exact pure trivial
  · exact raise _
  · exact raise _

/-- The cells of parameters that hold the arguments of a call. -/
theorem bindParams
    (tree : Tree)
    (params : List Param)
    (arguments : List ExprId)
    (values : List Value)
    (locals : Array CellId) :
    Retains held node (fun bound => bound.size = locals.size)
      (Step.bindParams tree params arguments values locals) := by
  fun_induction Step.bindParams tree params arguments values locals with
  | case1 param params argument arguments value values locals inductionHypothesis =>
      refine (allocate _).bind fun cell _ => (typeOf tree argument).bind fun source _ => ?_
      exact (store cell value source).bind fun _ _ => by simpa using inductionHypothesis cell
  | case2 => exact pure rfl

/-- The static types of arguments. -/
theorem typesOf
    (tree : Tree)
    (arguments : List ExprId) :
    Retains held node (fun _ => True) (arguments.mapM (Step.typeOf tree)) := by
  induction arguments with
  | nil => exact pure trivial
  | cons argument arguments inductionHypothesis =>
      rw [List.mapM_cons]
      exact (typeOf tree argument).bind fun _ _ => inductionHypothesis.bind fun _ _ => pure trivial

/-- A function of the host. -/
theorem callNative
    (id : NativeId)
    (this : Option ObjectId)
    (arguments : List ExprId)
    (values : List Value) :
    Retains held node (fun _ => True) (Step.callNative setting id this arguments values) :=
  (typesOf _ arguments).bind fun _ _ => ofAction _

/-- The array a write through a cell goes to. -/
theorem arrayForWrite
    (holder : CellId) :
    Retains held node (fun _ => True) (Step.arrayForWrite holder) := by
  refine heap.bind fun heap _ => ?_
  dsimp only
  split
  · exact pure trivial
  · refine (require _ _).bind fun element _ => (allocate _).bind fun array _ => ?_
    exact (store _ _ _).bind fun _ _ => pure trivial
  · exact raise _

/-- The position that an index expression has delivered. -/
theorem indexOf
    (handsOn : HandsOn node incoming) :
    Retains held node (fun _ => True) (Step.indexOf incoming) := by
  refine (valueOf handsOn).bind fun value _ => ?_
  split
  · exact raise _
  · exact (require _ _).weaken

/-- The store of an assignment. -/
theorem assignTo
    (cell : CellId)
    (op : Option BinaryOp)
    (common ty source : Ty)
    (assigned : Value) :
    Retains held node (fun _ => True) (Step.assignTo cell op common ty source assigned) := by
  unfold Step.assignTo
  split
  · exact store _ _ _
  · refine (read cell).bind fun current _ => (operand _ _ _).bind fun left _ => ?_
    refine (operand _ _ _).bind fun right _ => (ofExcept _).bind fun result _ => ?_
    exact store _ _ _

/-- The store of the initial value of a static field. -/
theorem storeStatic
    (value : Value) :
    Retains held node (fun _ => True) (Step.storeStatic setting frame value) := by
  refine (require _ _).bind fun field _ => (require _ _).bind fun initial _ => ?_
  refine (typeOf _ initial).bind fun source _ => get.bind fun memory _ => ?_
  exact (require _ _).bind fun cell _ => storeDeclared _ _ _ _

/-- The store of the initial value of a field. -/
theorem storeField
    (tree : Tree)
    (this : ObjectId)
    (fields : List FieldDef)
    (value : Value) :
    Retains held node (fun _ => True) (Step.storeField tree this frame fields value) := by
  refine (require _ _).bind fun field _ => (require _ _).bind fun initial _ => ?_
  refine (typeOf _ initial).bind fun source _ => heap.bind fun heap _ => ?_
  exact (require _ _).bind fun cell _ => storeDeclared _ _ _ _

end Retains

namespace Obeys

/-- A function on top of a frame, over the activation of its call. -/
theorem enterFunction
    (stays : frame.Stays origin)
    (id : FuncId)
    (this : Option ObjectId)
    (arguments : List ExprId)
    (values : List Value) :
    Obeys setting origin held (do
      let act ← Step.bind setting id this arguments values
      Pure.pure (.push frame (.enter (.function id) act))) := by
  unfold Step.bind
  simp only [bind_assoc]
  refine bind (.require _ _) fun function found => ?_
  refine bind (.activationFor function id this) fun activation outline => ?_
  refine bind (.bindParams _ _ _ _ _) fun locals size => pushOwner stays rfl ?_
  obtain ⟨named, slots⟩ := Outline.mk.inj outline
  exact ⟨named, function, found, size.trans slots⟩

/-! ## Expressions -/

section Expressions

variable {id : ExprId} {demand : Demand} (isNode : origin.node = .expression id demand)
  (handsOn : HandsOn origin.node incoming)

include isNode

/-- A call of a method once its receiver and arguments are known. -/
theorem invoke
    (slot : Option MethodSlot)
    (target : MethodImpl)
    (arguments : List ExprId)
    (ty : Ty)
    (stays : frame.Stays origin) :
    Obeys setting origin held (Step.invoke setting frame slot target arguments ty demand) := by
  refine bind (.receiver _) fun this _ => ?_
  dsimp only
  split
  · exact bind .heap fun heap _ => enterFunction (by exact stays) _ _ _ _
  · exact bind (.callNative _ _ _ _) fun value _ => produce isNode value ty

/-- The call of a constructor. -/
theorem construct
    (constructor : Option MethodImpl)
    (arguments : List ExprId)
    (ty : Ty)
    (stays : frame.Stays origin) :
    Obeys setting origin held (Step.construct setting frame constructor arguments ty demand) := by
  refine bind (.require _ _) fun last _ => bind (.receiver _) fun this _ => ?_
  dsimp only
  split
  · exact produce isNode _ ty
  · exact enterFunction (by exact stays) _ _ _ _
  · exact bind (.callNative _ _ _ _) fun _ _ => produce isNode _ ty

include handsOn

/-- A call of a function of the program. -/
theorem call
    (function : FuncId)
    (arguments : List ExprId)
    (ty : Ty)
    (stays : frame.Stays origin) :
    Obeys setting origin held (Step.call setting frame function arguments ty demand incoming) := by
  unfold Step.call
  split
  · refine bind (.collect handsOn arguments) fun collected stand => ?_
    have stays : collected.1.Stays origin := ⟨stand.1.trans stays.1, stand.2.trans stays.2⟩
    split
    · exact pushExpression stays _ _
    · exact enterFunction (by exact stays) _ _ _ _
  · exact bind (.valueOf handsOn) fun value _ => produce isNode value ty

/-- A call of a function of the host. -/
theorem nativeCall
    (native : NativeId)
    (arguments : List ExprId)
    (ty : Ty)
    (stays : frame.Stays origin) :
    Obeys setting origin held
      (Step.nativeCall setting frame native arguments ty demand incoming) := by
  refine bind (.collect handsOn arguments) fun collected stand => ?_
  have stays : collected.1.Stays origin := ⟨stand.1.trans stays.1, stand.2.trans stays.2⟩
  split
  · exact pushExpression stays _ _
  · exact bind (.callNative _ _ _ _) fun value _ => produce isNode value ty

/-- A call of a method. -/
theorem methodCall
    (object : ExprId)
    (slot : Option MethodSlot)
    (target : MethodImpl)
    (arguments : List ExprId)
    (ty : Ty)
    (stays : frame.Stays origin) :
    Obeys setting origin held
      (Step.methodCall setting frame object slot target arguments ty demand incoming) := by
  unfold Step.methodCall
  split
  · exact pushExpression (by exact stays) _ _
  · refine bind (.collect handsOn arguments) fun collected stand => ?_
    have stays : collected.1.Stays origin := ⟨stand.1.trans stays.1, stand.2.trans stays.2⟩
    split
    · exact pushExpression stays _ _
    · exact invoke isNode slot target arguments ty stays
  · exact bind (.valueOf handsOn) fun value _ => produce isNode value ty

/-- A new instance. -/
theorem newInstance
    (owner : ClassId)
    (constructor : Option MethodImpl)
    (arguments : List ExprId)
    (ty : Ty)
    (stays : frame.Stays origin) :
    Obeys setting origin held
      (Step.newInstance setting frame owner constructor arguments ty demand incoming) := by
  unfold Step.newInstance
  split
  · refine bind (.collect handsOn arguments) fun collected stand => ?_
    have stays : collected.1.Stays origin := ⟨stand.1.trans stays.1, stand.2.trans stays.2⟩
    split
    · exact pushExpression stays _ _
    · refine bind (.require _ _) fun layout _ => bind (.allocate _) fun object _ => ?_
      exact pushOwner (by exact stays) rfl trivial
  · exact bind (.settle handsOn) fun _ _ => construct isNode constructor arguments ty stays
  · refine bind (.valueOf handsOn) fun _ _ => bind (.receiver _) fun this _ => ?_
    exact produce isNode _ ty

/-- An element of an array. -/
theorem element :
    Obeys setting origin held (Step.element frame demand incoming) := by
  refine bind (.indexOf handsOn) fun position _ => ?_
  split
  · refine bind (.require _ _) fun holder _ => bind (.arrayForWrite holder) fun array _ => ?_
    refine bind .heap fun heap _ => bind (.ofExcept _) fun place _ => ?_
    refine bind (.allocate _) fun cell _ => bind (.require _ _) fun cell _ => ?_
    exact complete (isNode ▸ trivial)
  · split
    · exact bind .heap fun heap _ => bind (.ofExcept _) fun cell _ => deliver isNode cell
    · exact raise _
    · exact raise _

/-- The literal of an array. -/
theorem arrayLiteral
    (tree : Tree)
    (items : List ExprId)
    (ty : Ty)
    (stays : frame.Stays origin) :
    Obeys setting origin held (Step.arrayLiteral tree frame items ty demand incoming) := by
  have built (values : List Value) :
      Obeys setting origin held
        (Step.arrayLiteral tree { frame with values } items ty demand none) := by
    unfold Step.arrayLiteral
    refine bind (.require _ _) fun element _ => ?_
    simp only [pure_bind]
    split
    · exact pushExpression (by exact stays) _ _
    · split
      · exact raise _
      · exact bind (.allocate _) fun array _ => produce isNode _ ty
  cases incoming with
  | none => exact built frame.values
  | some completion =>
      refine bind (.require _ _) fun element found => bind (.valueOf handsOn) fun item _ => ?_
      refine bind (.require _ _) fun id _ => bind (.typeOf tree id) fun source _ => ?_
      refine bind (.convert item source element) fun item _ => ?_
      have rest := built (frame.values ++ [item])
      rw [Step.arrayLiteral, found] at rest
      exact rest

/-- An expression. -/
theorem expression
    (stays : frame.Stays origin) :
    Obeys setting origin held (Step.expression setting frame id demand incoming) := by
  refine bind (.part _) fun node _ => ?_
  dsimp only
  split
  · exact produce isNode _ _
  · exact bind (.activationOf frame) fun activation _ => bind (.require _ _) fun cell _ =>
      deliver isNode cell
  · exact bind (.activationOf frame) fun activation _ => produce isNode _ _
  · split
    · exact pushExpression (by exact stays) _ _
    · refine bind (.valueOf handsOn) fun value _ => bind (.receiver _) fun object _ => ?_
      refine bind .heap fun heap _ => bind (.require _ _) fun cell _ => ?_
      exact deliver isNode cell
  · exact bind .get fun memory _ => bind (.require _ _) fun cell _ => deliver isNode cell
  · split
    · exact pushExpression (by exact stays) _ _
    · exact bind (.placeOf handsOn) fun cell _ => pushExpression (by exact stays) _ _
    · exact bind (.valueOf handsOn) fun value _ => pushExpression (by exact stays) _ _
    · exact element isNode handsOn
  · split
    · exact pushExpression (by exact stays) _ _
    · exact bind (.placeOf handsOn) fun cell _ => pushExpression (by exact stays) _ _
    · refine bind (.valueOf handsOn) fun assigned _ => bind (.require _ _) fun cell _ => ?_
      refine bind (.typeOf _ _) fun source _ => bind (.assignTo _ _ _ _ _ _) fun _ _ => ?_
      exact bind .heap fun heap _ => produce isNode _ _
  · split
    · exact pushExpression (by exact stays) _ _
    · refine bind (.placeOf handsOn) fun cell _ => bind (.read cell) fun before _ => ?_
      refine bind (.ofExcept _) fun after _ => bind .heap fun heap _ => ?_
      exact bind (.store _ _ _) fun _ _ => produce isNode _ _
  · split
    · exact pushExpression (by exact stays) _ _
    · exact bind (.valueOf handsOn) fun value _ => pushExpression (by exact stays) _ _
    · refine bind (.valueOf handsOn) fun value _ => bind (.typeOf _ _) fun source _ => ?_
      refine bind (.operand _ _ _) fun second _ => bind (.require _ _) fun first _ => ?_
      refine bind (.typeOf _ _) fun source _ => bind (.operand _ _ _) fun first _ => ?_
      exact bind (.ofExcept _) fun result _ => produce isNode _ _
  · split
    · exact pushExpression (by exact stays) _ _
    · refine bind (.conditionOf handsOn) fun first _ => ?_
      split
      · exact produce isNode _ _
      · exact pushExpression (by exact stays) _ _
    · exact bind (.conditionOf handsOn) fun second _ => produce isNode _ _
  · split
    · exact pushExpression (by exact stays) _ _
    · refine bind (.conditionOf handsOn) fun holds _ => ?_
      split
      · exact pushExpression (by exact stays) _ _
      · exact pushExpression (by exact stays) _ _
    · refine bind (.valueOf handsOn) fun value _ => bind (.typeOf _ _) fun source _ => ?_
      exact bind (.convert _ _ _) fun result _ => produce isNode _ _
  · split
    · exact pushExpression (by exact stays) _ _
    · refine bind (.valueOf handsOn) fun value _ => bind (.ofExcept _) fun result _ => ?_
      exact produce isNode _ _
  · exact call isNode handsOn _ _ _ stays
  · exact nativeCall isNode handsOn _ _ _ stays
  · exact methodCall isNode handsOn _ _ _ _ _ stays
  · exact newInstance isNode handsOn _ _ _ _ stays
  · exact arrayLiteral isNode handsOn _ _ _ stays

end Expressions

/-! ## Frames that own activations -/

/-- The call of the entry function. -/
theorem callEntry
    (entry : FuncId)
    (stays : frame.Stays origin) :
    Obeys setting origin held (Step.callEntry setting frame entry) := by
  refine bind (.require _ _) fun function found => ?_
  refine bind (.activationFor function entry none) fun activation outline => ?_
  exact pushOwner (by exact stays) rfl (outline ▸ ⟨rfl, function, found, rfl⟩)

/-- The next initial value of a static field, or the entry function. -/
theorem startNext
    (entry : FuncId)
    (stays : frame.Stays origin) :
    Obeys setting origin held (Step.startNext setting frame entry) := by
  unfold Step.startNext
  dsimp only
  split
  · exact pushExpression (by exact stays) _ _
  · exact callEntry entry (by exact stays)

/-- A step of the root frame. -/
theorem start
    {entry : FuncId}
    (isNode : origin.node = .start entry)
    (handsOn : HandsOn origin.node incoming)
    (stays : frame.Stays origin) :
    Obeys setting origin held (Step.start setting frame entry incoming) := by
  unfold Step.start
  split
  · exact startNext entry stays
  · refine bind (.valueOf handsOn) fun value _ => bind (.storeStatic value) fun _ _ => ?_
    exact startNext entry (by exact stays)
  · exact callEntry entry stays
  · exact bind (.valueOf handsOn) fun value _ => complete (isNode ▸ trivial)

/-- A step of the body of a function. -/
theorem function
    {id : FuncId}
    (isNode : origin.node = .function id)
    (stays : frame.Stays origin) :
    Obeys setting origin held (Step.function setting frame id incoming) := by
  refine bind (.part _) fun function _ => ?_
  split
  · exact bind (.require _ _) fun body _ => pushStatement (isNode ▸ rfl) (by exact stays) _
  · split
    · exact complete (isNode ▸ trivial)
    · exact complete (isNode ▸ trivial)
    · split
      · exact complete (isNode ▸ trivial)
      · exact raise _

/-- The fields of a new instance up to the next initial value. -/
theorem setupFrom
    {owner : ClassId}
    (isNode : origin.node = .fieldSetup owner)
    (this : ObjectId)
    (fields : List FieldDef)
    (stays : frame.Stays origin) :
    Obeys setting origin held (Step.setupFrom this frame fields) := by
  induction fields generalizing frame with
  | nil => exact complete (isNode ▸ trivial)
  | cons field rest inductionHypothesis =>
      have goOn :
          Obeys setting origin held
            (Step.setupFrom this { frame with cursor := frame.cursor + 1 } rest) :=
        inductionHypothesis (by exact stays)
      unfold Step.setupFrom
      split
      · exact pushExpression (by exact stays) _ _
      · dsimp only
        split
        · refine bind .heap fun heap _ => bind (.require _ _) fun cell _ => ?_
          exact bind (.allocate _) fun content _ => bind (.modifyHeap _) fun _ _ => goOn
        · exact goOn

/-- A step of the field values of a new instance. -/
theorem fieldSetup
    {owner : ClassId}
    (isNode : origin.node = .fieldSetup owner)
    (handsOn : HandsOn origin.node incoming)
    (stays : frame.Stays origin) :
    Obeys setting origin held (Step.fieldSetup setting frame owner incoming) := by
  refine bind (.part _) fun _ _ => bind (.activationOf frame) fun activation _ => ?_
  refine bind (.require _ _) fun this _ => ?_
  split
  · refine bind (.valueOf handsOn) fun value _ => bind (.storeField _ _ _ _) fun _ _ => ?_
    exact setupFrom isNode this _ (by exact stays)
  · exact bind (.settle handsOn) fun _ _ => setupFrom isNode this _ stays

/-- A step of a frame that is handed what the frames above it can deliver. -/
theorem ofFrame
    (setting : Setting)
    (frame : Frame)
    (held : List Outline)
    (takes : ∀ completion, incoming = some completion → frame.node.Takes completion) :
    Obeys setting frame held (Step.ofFrame setting frame incoming) := by
  have handsOn (isOther : ∀ id, frame.node ≠ .function id) : HandsOn frame.node incoming :=
    fun completion handed abrupt => (takes completion handed).delivers abrupt isOther
  unfold Step.ofFrame
  split
  · next entry isNode =>
      exact start isNode (handsOn (by simp [isNode])) ⟨rfl, rfl⟩
  · next id isNode => exact function isNode ⟨rfl, rfl⟩
  · next owner isNode => exact fieldSetup isNode (handsOn (by simp [isNode])) ⟨rfl, rfl⟩
  · next id isNode => exact statement isNode ⟨rfl, rfl⟩
  · next id demand isNode => exact expression isNode (handsOn (by simp [isNode])) ⟨rfl, rfl⟩

end Obeys

end Step

end BotScript
