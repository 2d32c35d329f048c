import BotScript.Machine.Setup
import BotScript.Proofs.Lockstep
import BotScript.Proofs.NormalLibrary

namespace BotScript

/-!
# What steps hand on and look up

A step reports an exception at the node of its frame, or hands on one that has been
handed to it or that its frame holds back.  So the places of exceptions are always
those of nodes.

A step looks up the part of the program that its node names, and the types of parts of
that node.  If every part of the program names other parts, all of them are found.
Both are shown together, for a law that may leave either of them out.
-/

/-! ## Known parts -/

/-- What the parts of a program name is in the program. -/
structure Tree.Closed (tree : Tree) : Prop where
  children :
    ∀ id node, tree.expr? id = some node →
      ∀ child ∈ node.kind.children, (tree.expr? child).isSome
  owners :
    ∀ id node, tree.expr? id = some node →
      ∀ owner constructor arguments, node.kind = .new owner constructor arguments →
        (tree.class? owner).isSome
  expressions :
    ∀ id node, tree.stmt? id = some node →
      ∀ child ∈ node.kind.childExprs, (tree.expr? child).isSome
  statements :
    ∀ id node, tree.stmt? id = some node →
      ∀ child ∈ node.kind.childStmts, (tree.stmt? child).isSome
  bodies :
    ∀ id function, tree.function? id = some function →
      ∀ body ∈ function.body, (tree.stmt? body).isSome
  initials :
    ∀ entry ∈ tree.classes, ∀ field ∈ entry.fields ++ entry.statics, ∀ initial ∈ field.initial,
      (tree.expr? initial).isSome

/-- The part of a program that a node names is in the program. -/
def Node.Known (tree : Tree) : Node → Prop
  | .start _ => True
  | .function id => (tree.function? id).isSome
  | .fieldSetup owner => (tree.class? owner).isSome
  | .statement id => (tree.stmt? id).isSome
  | .expression id _ => (tree.expr? id).isSome

namespace Tree

/-- A field of the instances of a class is one of a class of the program. -/
theorem mem_classes_of_instanceField
    {tree : Tree}
    {owner : ClassId}
    {field : FieldDef}
    (isField : field ∈ (tree.instanceFields owner).map (·.2)) :
    ∃ entry ∈ tree.classes, field ∈ entry.fields := by
  obtain ⟨pair, member, rfl⟩ := List.mem_map.mp isField
  obtain ⟨declaring, -, member⟩ := List.mem_flatMap.mp member
  obtain ⟨found, isFound, rfl⟩ := List.mem_map.mp member
  unfold classDef at isFound
  cases isThere : tree.class? declaring with
  | none =>
      rw [isThere] at isFound
      cases isFound
  | some entry =>
      rw [isThere] at isFound
      exact ⟨entry, Array.mem_of_getElem? isThere, isFound⟩

end Tree

/-! ## Completions and frames -/

/-- The exception that a completion hands on, if it is one, is reported at one of some places. -/
class Completion.Sited (places : Span → Prop) (completion : Completion) : Prop where
  sited : ∀ error, completion = .thrown error → places error.span

/-- A completion that is held back or handed on, if there is one, is reported at some places. -/
class Held (places : Span → Prop) (completion : Option Completion) : Prop where
  held : ∀ error, completion = some (.thrown error) → places error.span

section Completions

variable {places : Span → Prop}

instance : Completion.Sited places .normal := ⟨nofun⟩

instance (value : Value) : Completion.Sited places (.value value) := ⟨nofun⟩

instance (cell : CellId) : Completion.Sited places (.place cell) := ⟨nofun⟩

instance (label : Option String) : Completion.Sited places (.breakTo label) := ⟨nofun⟩

instance (label : Option String) : Completion.Sited places (.continueTo label) := ⟨nofun⟩

instance (value : Value) : Completion.Sited places (.returned value) := ⟨nofun⟩

instance : Held places none := ⟨nofun⟩

instance (completion : Completion) [sited : completion.Sited places] :
    Held places (some completion) :=
  ⟨fun error isThrown => sited.sited error (Option.some.inj isThrown)⟩

/-- What is held back is reported at one of the places. -/
theorem Held.sited
    {completion : Completion}
    (held : Held places (some completion)) :
    completion.Sited places :=
  ⟨fun error isThrown => held.held error (congrArg some isThrown)⟩

/-- What is held back, or else another completion. -/
instance (pending : Option Completion) (other : Completion) [held : Held places pending]
    [other.Sited places] : (pending.getD other).Sited places := by
  cases pending with
  | none => assumption
  | some completion => exact held.sited

end Completions

/-- The exceptions that a move leaves in the chain are reported at some places. -/
def Move.Sited (places : Span → Prop) : Move → Prop
  | .push frame child => Held places frame.pending ∧ Held places child.pending
  | .tick frame => Held places frame.pending
  | .complete completion => completion.Sited places

/-! ## Laws -/

/--
What is asked of the steps of a program: exceptions are reported at some places, and unless
parts may be missing, every part that is named is in the program.
-/
structure Step.Law where
  setting : Setting
  places : Span → Prop
  missing : Prop

namespace Step.Law

variable (law : Law)

/-- A part is there, or it may be missing. -/
def Has (isThere : Bool) : Prop :=
  law.missing ∨ isThere = true

/-- The part that a node names is in the program, or it may be missing. -/
def Knows (node : Node) : Prop :=
  law.missing ∨ node.Known law.setting.tree

/-- The function of an activation is in the program, or it may be missing. -/
def Admits (activation : Activation) : Prop :=
  ∀ id ∈ activation.function, law.Has (law.setting.tree.function? id).isSome

/-- All activations are those of functions that are there. -/
def Upholds (memory : Memory) : Prop :=
  ∀ activation ∈ memory.activations, law.Admits activation

/-- A program and its natives can meet a law. -/
class Met : Prop where
  sites : ∀ node : Node, law.places (node.span law.setting.tree)
  closed : law.missing ∨ law.setting.tree.Closed
  natives : law.missing ∨ law.setting.registry.Plain

namespace Met

variable {law} [met : law.Met]

/-- The parts of an expression are there. -/
theorem children
    {id : ExprId}
    {node : Expr}
    (found : law.setting.tree.expr? id = some node) :
    ∀ child ∈ node.kind.children, law.Has (law.setting.tree.expr? child).isSome :=
  fun child isChild => met.closed.imp_right fun closed =>
    closed.children id node found child isChild

/-- The expressions of a statement are there. -/
theorem expressions
    {id : StmtId}
    {node : Stmt}
    (found : law.setting.tree.stmt? id = some node) :
    ∀ child ∈ node.kind.childExprs, law.Has (law.setting.tree.expr? child).isSome :=
  fun child isChild => met.closed.imp_right fun closed =>
    closed.expressions id node found child isChild

/-- The initial values of fields are there. -/
theorem initials
    {entry : ClassDef}
    {field : FieldDef}
    {initial : ExprId}
    (isEntry : entry ∈ law.setting.tree.classes)
    (isField : field ∈ entry.fields ++ entry.statics)
    (isInitial : field.initial = some initial) :
    law.Has (law.setting.tree.expr? initial).isSome :=
  met.closed.imp_right fun closed => closed.initials entry isEntry field isField initial isInitial

end Met

end Step.Law

namespace Step

variable {α β : Type} {law : Law}

/-- What a step leads to that meets a law, and whose result meets a condition. -/
inductive Abided (law : Law) (post : α → Prop) : Except Interrupt α × Memory → Prop where
  | ok
      {value : α}
      {after : Memory} :
      law.Upholds after →
      post value →
      Abided law post (.ok value, after)
  | fault
      {fault : Fault}
      {after : Memory} :
      law.Upholds after →
      (fault = .missingPart → law.missing) →
      Abided law post (.error (.fault fault), after)
  | propagate
      {completion : Completion}
      {after : Memory} :
      law.Upholds after →
      completion.Sited law.places →
      Abided law post (.error (.propagate completion), after)

/-- A step meets a law, and its result meets a condition. -/
def Abides (law : Law) (post : α → Prop) (step : Step α) : Prop :=
  ∀ memory : Memory, law.Upholds memory → Abided law post (step.run.run memory)

/-- A step meets a law. -/
class Lawful (law : Law) (step : Step α) : Prop where
  abides : Abides law (fun _ => True) step

/-- A step meets a law, and so does what its move leaves in the chain or hands on. -/
class Moving (law : Law) (step : Step Move) : Prop where
  abides : Abides law (Move.Sited law.places) step

namespace Abides

variable {post : β → Prop}

/-- A result that needs no step. -/
theorem pure
    {value : β}
    (holds : post value) :
    Abides law post (Pure.pure value) :=
  fun _ upholds => .ok upholds holds

/-- A step and what follows it. -/
theorem bind
    {middle : α → Prop}
    {step : Step α}
    {next : α → Step β}
    (first : Abides law middle step)
    (rest : ∀ value, middle value → Abides law post (next value)) :
    Abides law post (step >>= next) := by
  intro memory upholds
  have abided := first memory upholds
  simp only [ExceptT.run_bind, StateT.run_bind]
  revert abided
  generalize step.run.run memory = reached
  intro abided
  cases abided with
  | ok upholds holds => exact rest _ holds _ upholds
  | fault upholds found => exact .fault upholds found
  | propagate upholds sited => exact .propagate upholds sited

/-- A value that must be there. -/
theorem require
    (code : ErrorCode)
    (value : Option β) :
    Abides law (fun found => value = some found) (Step.require code value) := by
  cases value with
  | some value => exact pure rfl
  | none => exact fun _ upholds => .fault upholds Fault.noConfusion

/-- A part of the program that is there, or may be missing. -/
theorem part
    {value : Option β}
    (known : law.Has value.isSome) :
    Abides law (fun found => value = some found) (Step.part value) := by
  cases value with
  | some value => exact pure rfl
  | none => exact fun _ upholds => .fault upholds fun _ => known.resolve_right Bool.noConfusion

/-- The current memory. -/
theorem get : Abides law law.Upholds (MonadState.get : Step Memory) :=
  fun _ upholds => .ok upholds upholds

/-- The activation of a frame. -/
theorem activationOf
    (frame : Frame) :
    Abides law law.Admits (Step.activationOf frame) := by
  refine get.bind fun memory upholds => ?_
  cases found : memory.activations[frame.act.toNat]? with
  | none => exact fun _ upholds => .fault upholds Fault.noConfusion
  | some activation => exact pure (upholds activation (Array.mem_of_getElem? found))

/-- The activation of a function. -/
theorem activationFor
    (function : FunctionDef)
    (id : FuncId)
    (this : Option ObjectId) :
    Abides law (fun activation => activation.function = some id)
      (Step.activationFor function id this) :=
  fun _ upholds => .ok upholds rfl

end Abides

/-! ## Parts of steps -/

namespace Lawful

/-! ### Results and failures -/

instance pure (value : α) : Lawful law (Pure.pure value) :=
  ⟨.pure trivial⟩

instance bind (step : Step α) (next : α → Step β) [first : Lawful law step]
    [rest : ∀ value, Lawful law (next value)] : Lawful law (step >>= next) :=
  ⟨first.abides.bind fun value _ => (rest value).abides⟩

/-- A step whose result meets a condition, and what follows it. -/
theorem behind
    {middle : α → Prop}
    {step : Step α}
    {next : α → Step β}
    (first : Abides law middle step)
    (rest : ∀ value, middle value → Lawful law (next value)) :
    Lawful law (step >>= next) :=
  ⟨first.bind fun value holds => (rest value holds).abides⟩

/-- What is shown to follow a step. -/
theorem andThen
    {step : Step α}
    {next : α → Step β}
    [Lawful law step]
    (rest : ∀ value, Lawful law (next value)) :
    Lawful law (step >>= next) :=
  bind step next

instance ite (condition : Prop) [Decidable condition] (first second : Step α)
    [Lawful law first] [Lawful law second] :
    Lawful law (if condition then first else second) := by
  split <;> assumption

instance propagate (completion : Completion) [sited : completion.Sited law.places] :
    Lawful law (throw (.propagate completion) : Step α) :=
  ⟨fun _ upholds => .propagate upholds sited⟩

instance raise (code : ErrorCode) : Lawful law (Step.raise code : Step α) :=
  ⟨fun _ upholds => .fault upholds Fault.noConfusion⟩

/-- A check that finds all parts, unless they may be missing. -/
theorem ofChecked
    {result : Checked α}
    (found : law.missing ∨ result ≠ .error .missingPart) :
    Lawful law (Step.ofChecked result) := by
  cases result with
  | ok value => exact pure value
  | error fault =>
      refine ⟨fun _ upholds => .fault upholds fun isMissing => found.resolve_right fun finds => ?_⟩
      exact finds (congrArg Except.error isMissing)

instance ofExcept (result : Except ErrorCode α) : Lawful law (Step.ofExcept result) :=
  ofChecked (.inr (by cases result <;> intro missing <;> cases missing))

instance require (code : ErrorCode) (value : Option α) :
    Lawful law (Step.require code value) := by
  cases value with
  | some value => exact pure value
  | none => exact raise code

/-! ### Memory -/

instance get : Lawful law (MonadState.get : Step Memory) :=
  ⟨fun _ upholds => .ok upholds trivial⟩

instance heap : Lawful law Step.heap := by
  unfold Step.heap
  infer_instance

instance allocate (operation : Heap → α × Heap) : Lawful law (Step.allocate operation) :=
  ⟨fun _ upholds => .ok upholds trivial⟩

instance modifyHeap (change : Heap → Heap) : Lawful law (Step.modifyHeap change) :=
  allocate _

instance setHeap (heap : Heap) : Lawful law (Step.setHeap heap) :=
  modifyHeap _

/-- An action of a host that finds all parts, unless they may be missing. -/
theorem ofAction
    {action : Action α}
    (found : law.missing ∨ action.Plain) :
    Lawful law (Step.ofAction action) := by
  refine ⟨fun memory upholds => ?_⟩
  exact (ofChecked (found.imp_right fun plain => plain.found memory.world)).abides
    ⟨(action.run.run memory.world).2, memory.activations, memory.statics⟩ upholds

instance read (cell : CellId) : Lawful law (Step.read cell) := by
  unfold Step.read
  infer_instance

instance store (cell : CellId) (value : Value) (source : Ty) :
    Lawful law (Step.store cell value source) := by
  refine andThen fun heap => ?_
  have : Lawful law (Step.ofChecked _) :=
    ofChecked (.inr ((heap.cell cell).stored_found heap (some cell) value source))
  infer_instance

instance convert (value : Value) (source target : Ty) :
    Lawful law (Step.convert value source target) :=
  andThen fun heap => ofChecked (.inr (heap.convertWhile_found none value source target))

instance storeDeclared (cell : CellId) (value : Value) (source : Ty) (limits : Limits) :
    Lawful law (Step.storeDeclared cell value source limits) := by
  unfold Step.storeDeclared
  infer_instance

instance truth (value : Value) : Lawful law (Step.truth value) := by
  unfold Step.truth
  infer_instance

/-- The type of an expression that is there, or may be missing. -/
theorem typeOf
    {tree : Tree}
    {id : ExprId}
    (known : law.Has (tree.expr? id).isSome) :
    Lawful law (Step.typeOf tree id) :=
  behind (.part known) fun _ _ => pure _

instance operand (value : Value) (source target : Ty) :
    Lawful law (Step.operand value source target) := by
  unfold Step.operand
  infer_instance

instance activationOf (frame : Frame) : Lawful law (Step.activationOf frame) := by
  unfold Step.activationOf
  infer_instance

/-- An activation of a function that is there, or may be missing. -/
theorem pushActivation
    {setting : Setting}
    {activation : Activation}
    (admits : law.Admits activation) :
    Lawful law (Step.pushActivation setting activation) := by
  refine ⟨fun memory upholds => ?_⟩
  rw [run_pushActivation]
  split
  · exact .fault upholds Fault.noConfusion
  · exact .ok (Array.forall_mem_push upholds admits) trivial

/-! ### What parts have delivered -/

section Incoming

variable {incoming : Option Completion} [held : Held law.places incoming]

instance valueOf : Lawful law (Step.valueOf incoming) := by
  unfold Step.valueOf
  split
  · infer_instance
  · infer_instance
  · have := held.sited
    infer_instance
  · infer_instance

instance placeOf : Lawful law (Step.placeOf incoming) := by
  unfold Step.placeOf
  split
  · infer_instance
  · have := held.sited
    infer_instance
  · infer_instance

instance settle : Lawful law (Step.settle incoming) := by
  unfold Step.settle
  split
  · have := held.sited
    infer_instance
  · infer_instance

instance conditionOf : Lawful law (Step.conditionOf incoming) := by
  unfold Step.conditionOf
  infer_instance

instance indexOf : Lawful law (Step.indexOf incoming) := by
  unfold Step.indexOf
  refine andThen fun value => ?_
  split <;> infer_instance

instance goesOn (label : Option String) : Lawful law (Step.goesOn label incoming) := by
  unfold Step.goesOn
  split <;> infer_instance

end Incoming

/-! ### Calls and places -/

instance receiver (value : Option Value) : Lawful law (Step.receiver value) := by
  unfold Step.receiver
  split <;> infer_instance

section Arguments

variable {tree : Tree} {arguments : List ExprId}
  (known : ∀ id ∈ arguments, law.Has (tree.expr? id).isSome)

include known

/-- Parameters are bound to arguments that are there, or may be missing. -/
theorem bindParams
    (params : List Param)
    (values : List Value)
    (locals : Array CellId) :
    Lawful law (Step.bindParams tree params arguments values locals) := by
  induction params generalizing arguments values locals with
  | nil => exact pure _
  | cons param params inductionHypothesis =>
      cases arguments with
      | nil => exact pure _
      | cons argument arguments =>
          cases values with
          | nil => exact pure _
          | cons value values =>
              obtain ⟨first, others⟩ := List.forall_mem_cons.mp known
              have := typeOf first
              exact andThen fun cell => andThen fun source => andThen fun _ =>
                inductionHypothesis others values _

/-- The types of arguments that are there, or may be missing. -/
theorem typesOf : Lawful law (arguments.mapM (Step.typeOf tree)) := by
  induction arguments with
  | nil => exact pure _
  | cons argument arguments inductionHypothesis =>
      rw [List.mapM_cons]
      obtain ⟨first, others⟩ := List.forall_mem_cons.mp known
      have := typeOf first
      have := inductionHypothesis others
      infer_instance

end Arguments

section Calls

variable {arguments : List ExprId}
  (known : ∀ id ∈ arguments, law.Has (law.setting.tree.expr? id).isSome)

include known

/-- A function is called with arguments that are there, or may be missing. -/
theorem bindCall
    (id : FuncId)
    (this : Option ObjectId)
    (values : List Value) :
    Lawful law (Step.bind law.setting id this arguments values) := by
  refine behind (.require _ _) fun function found => ?_
  refine behind (.activationFor function id this) fun activation isOwn => ?_
  have := bindParams known function.params values activation.locals
  refine andThen fun locals => pushActivation fun other isOther => ?_
  cases isOwn.symm.trans isOther
  exact .inr (Option.isSome_of_eq_some found)

/-- A function of the host is called with arguments that are there, or may be missing. -/
theorem callNative
    [met : law.Met]
    (id : NativeId)
    (this : Option ObjectId)
    (values : List Value) :
    Lawful law (Step.callNative law.setting id this arguments values) := by
  have := typesOf known
  exact andThen fun types => ofAction (met.natives.imp_right fun plain => plain id _)

end Calls

instance arrayForWrite (holder : CellId) : Lawful law (Step.arrayForWrite holder) := by
  unfold Step.arrayForWrite
  refine andThen fun heap => ?_
  dsimp only
  split <;> infer_instance

instance assignTo (cell : CellId) (op : Option BinaryOp) (common ty source : Ty)
    (assigned : Value) : Lawful law (Step.assignTo cell op common ty source assigned) := by
  unfold Step.assignTo
  split <;> infer_instance

/-- The initial value of a static field is stored. -/
instance storeStatic [met : law.Met] (frame : Frame) (value : Value) :
    Lawful law (Step.storeStatic law.setting frame value) := by
  refine behind (.require _ _) fun field found => behind (.require _ _) fun initial isInitial => ?_
  obtain ⟨entry, isEntry, isStatic⟩ := Option.bind_eq_some_iff.mp found
  have := typeOf (met.initials (Array.mem_of_getElem? isEntry)
    (List.mem_append_right _ (List.mem_of_getElem? isStatic)) isInitial)
  infer_instance

/-- The initial value of a field of an instance is stored. -/
instance storeField [met : law.Met] (this : ObjectId) (frame : Frame) (owner : ClassId)
    (value : Value) :
    Lawful law (Step.storeField law.setting.tree this frame
      ((law.setting.tree.instanceFields owner).map (·.2)) value) := by
  refine behind (.require _ _) fun field found => behind (.require _ _) fun initial isInitial => ?_
  obtain ⟨entry, isEntry, isField⟩ :=
    Tree.mem_classes_of_instanceField (List.mem_of_getElem? found)
  have := typeOf (met.initials isEntry (List.mem_append_left _ isField) isInitial)
  infer_instance

instance catches (frame : Frame) (clause : CatchClause) (tested : Value) :
    Lawful law (Step.catches frame clause tested) := by
  unfold Step.catches
  split
  · infer_instance
  · split <;> infer_instance

end Lawful

/-! ## Moves -/

namespace Moving

instance bind (step : Step α) (next : α → Step Move) [first : Lawful law step]
    [rest : ∀ value, Moving law (next value)] : Moving law (step >>= next) :=
  ⟨first.abides.bind fun value _ => (rest value).abides⟩

/-- A step whose result meets a condition, and what follows it. -/
theorem behind
    {middle : α → Prop}
    {step : Step α}
    {next : α → Step Move}
    (first : Abides law middle step)
    (rest : ∀ value, middle value → Moving law (next value)) :
    Moving law (step >>= next) :=
  ⟨first.bind fun value holds => (rest value holds).abides⟩

/-- What is shown to follow a step. -/
theorem after
    {step : Step α}
    {next : α → Step Move}
    [Lawful law step]
    (rest : ∀ value, Moving law (next value)) :
    Moving law (step >>= next) :=
  bind step next

instance ite (condition : Prop) [Decidable condition] (first second : Step Move)
    [Moving law first] [Moving law second] :
    Moving law (if condition then first else second) := by
  split <;> assumption

instance raise (code : ErrorCode) : Moving law (Step.raise code) :=
  ⟨fun _ upholds => .fault upholds Fault.noConfusion⟩

instance complete (completion : Completion) [sited : completion.Sited law.places] :
    Moving law (Pure.pure (.complete completion)) :=
  ⟨.pure sited⟩

instance push (stay : Frame) (node : Node) (act : UInt32) [held : Held law.places stay.pending] :
    Moving law (Pure.pure (.push stay (.enter node act))) :=
  ⟨.pure ⟨held, ⟨nofun⟩⟩⟩

instance pushStatement (stay : Frame) (id : StmtId) [Held law.places stay.pending] :
    Moving law (Pure.pure (Step.pushStatement stay id)) :=
  push _ _ _

instance pushExpression (stay : Frame) (id : ExprId) (demand : Demand)
    [Held law.places stay.pending] :
    Moving law (Pure.pure (Step.pushExpression stay id demand)) :=
  push _ _ _

instance tick (stay : Frame) [held : Held law.places stay.pending] :
    Moving law (Pure.pure (.tick stay)) :=
  ⟨.pure held⟩

instance done : Moving law Step.done :=
  complete _

instance deliver (cell : CellId) (demand : Demand) :
    Moving law (Step.deliver cell demand) := by
  unfold Step.deliver
  split <;> infer_instance

instance produce (value : Value) (ty : Ty) (demand : Demand) :
    Moving law (Step.produce value ty demand) := by
  unfold Step.produce
  split <;> infer_instance

section Frames

variable {frame : Frame} [pending : Held law.places frame.pending]
  {incoming : Option Completion} [held : Held law.places incoming]

/-! ### Try statements -/

section Guarded

variable {body : List StmtId} {clauses : List CatchClause} {final : Option StmtId}

instance runFinal : Moving law (Step.runFinal frame final) := by
  unfold Step.runFinal
  split <;> infer_instance

omit pending in
/-- What is held back is handed on behind the final block. -/
instance endWith (completion : Completion) [completion.Sited law.places] :
    Moving law (Step.endWith frame final completion) := by
  unfold Step.endWith
  infer_instance

instance runHandler : Moving law (Step.runHandler frame clauses) := by
  unfold Step.runHandler
  infer_instance

instance matchClause : Moving law (Step.matchClause frame clauses final) := by
  unfold Step.matchClause
  split <;> infer_instance

omit pending in
instance matchFirst (error : RuntimeError) [Completion.Sited law.places (.thrown error)] :
    Moving law (Step.matchFirst frame clauses final error) := by
  unfold Step.matchFirst
  infer_instance

instance nextGuarded : Moving law (Step.nextGuarded frame body final) := by
  unfold Step.nextGuarded
  split <;> infer_instance

/-- The poll of the next boolean clause. -/
theorem poll
    {otherwise : Frame → Step Move}
    (goesOn : ∀ stay : Frame, Held law.places stay.pending → Moving law (otherwise stay)) :
    Moving law (Step.poll frame clauses otherwise) := by
  unfold Step.poll
  split
  · infer_instance
  · exact goesOn _ pending

instance bodyEnded : Moving law (Step.bodyEnded frame body clauses final incoming) := by
  unfold Step.bodyEnded
  split
  · infer_instance
  · have := held.sited
    infer_instance
  · have := held.sited
    split
    · infer_instance
    · split
      · exact poll fun _ _ => inferInstance
      · infer_instance

instance matchEnded : Moving law (Step.matchEnded frame clauses final incoming) := by
  unfold Step.matchEnded
  split
  · have := held.sited
    infer_instance
  · infer_instance

instance pollEnded : Moving law (Step.pollEnded frame body clauses final incoming) := by
  unfold Step.pollEnded
  split
  · have := held.sited
    infer_instance
  · refine after fun holds => ?_
    split
    · infer_instance
    · exact poll fun _ _ => inferInstance

omit pending in
/-- What is abrupt is handed on, and something else otherwise. -/
instance abruptOr (other : Completion) [other.Sited law.places] :
    (Step.abruptOr incoming other).Sited law.places := by
  unfold Step.abruptOr
  split
  · have := held.sited
    split <;> assumption
  · assumption

instance guarded : Moving law (Step.guarded frame body clauses final incoming) := by
  unfold Step.guarded
  split
  case h_2 => exact poll fun _ _ => inferInstance
  all_goals infer_instance

end Guarded

/-! ### Statements -/

instance nextStatement (statements : List StmtId) :
    Moving law (Step.nextStatement frame statements) := by
  unfold Step.nextStatement
  split <;> infer_instance

/-- The declaration of a variable whose initial value is there, or may be missing. -/
theorem declare
    {tree : Tree}
    {slot : LocalSlot}
    {limits : Limits}
    {initial : Option ExprId}
    (known : ∀ id ∈ initial, law.Has (tree.expr? id).isSome) :
    Moving law (Step.declare tree frame slot limits initial incoming) := by
  refine behind (.activationOf frame) fun activation admits => after fun former =>
    after fun heap => ?_
  have replace (cell : CellId) :
      Lawful law (modify fun memory : Memory =>
        { memory with
          activations := memory.activations.setIfInBounds frame.act.toNat
            { activation with locals := activation.locals.setIfInBounds slot.index cell } }) :=
    ⟨fun _ upholds => .ok (Array.forall_mem_set upholds admits) trivial⟩
  dsimp only
  split
  · infer_instance
  · infer_instance
  · refine after fun value => behind (.require _ _) fun id isId => ?_
    have := Lawful.typeOf (known id isId)
    infer_instance

instance forTested (body : StmtId) : Moving law (Step.forTested frame body incoming) := by
  unfold Step.forTested
  infer_instance

instance forTest (condition : Option ExprId) (body : StmtId) :
    Moving law (Step.forTest frame condition body incoming) := by
  unfold Step.forTest
  split <;> infer_instance

instance forSteps (steps : List ExprId) : Moving law (Step.forSteps frame steps) := by
  unfold Step.forSteps
  split <;> infer_instance

instance forLoop (label : Option String) (initial : List StmtId) (condition : Option ExprId)
    (steps : List ExprId) (body : StmtId) :
    Moving law (Step.forLoop frame label initial condition steps body incoming) := by
  unfold Step.forLoop
  split
  · refine after fun _ => ?_
    split <;> infer_instance
  all_goals infer_instance

instance nextRound (body : StmtId) : Moving law (Step.nextRound frame body) := by
  unfold Step.nextRound
  infer_instance

instance repeatLoop (label : Option String) (count : ExprId) (body : StmtId) :
    Moving law (Step.repeatLoop frame label count body incoming) := by
  unfold Step.repeatLoop
  split
  · infer_instance
  · refine after fun value => ?_
    split <;> infer_instance
  · infer_instance
  · infer_instance

instance switchOn (value : ExprId) (cases : List SwitchCase) (body : List StmtId) :
    Moving law (Step.switchOn frame value cases body incoming) := by
  unfold Step.switchOn
  split
  · infer_instance
  · refine after fun tested => after fun selected => ?_
    dsimp only
    split <;> infer_instance
  · split <;> infer_instance

omit pending held in
/-- An exception that a statement throws is reported at the statement. -/
theorem thrown
    {span : Span}
    (isPlace : law.places span)
    (value : Value) :
    Moving law (Step.thrown value span) := by
  have sited (code : Int32) : Completion.Sited law.places (.thrown ⟨code, span⟩) :=
    ⟨by rintro _ ⟨⟩; exact isPlace⟩
  unfold Step.thrown
  infer_instance

/-- A statement of the program that has been entered. -/
theorem entered
    [met : law.Met]
    {id : StmtId}
    {node : Stmt}
    (found : law.setting.tree.stmt? id = some node) :
    Moving law (Step.entered law.setting frame node incoming) := by
  have known := met.expressions found
  have isPlace : law.places node.span := by
    simpa [Node.span, found] using met.sites (.statement id)
  obtain ⟨kind, span⟩ := node
  unfold Step.entered
  cases kind with
  | throwCode value =>
      dsimp only
      split
      · infer_instance
      · exact after fun value => thrown isPlace value
  | declare slot limits initial =>
      exact declare fun id isInitial => known id (Option.mem_toList.mpr isInitial)
  | branch condition whenTrue whenFalse =>
      dsimp only
      split
      · infer_instance
      · refine after fun holds => ?_
        split <;> infer_instance
      · infer_instance
  | returnWith value =>
      cases value with
      | none => infer_instance
      | some value =>
          dsimp only
          split
          · infer_instance
          · refine after fun result => behind (.activationOf frame) fun activation admits => ?_
            refine behind (.require _ _) fun function isFunction => ?_
            refine behind (.part (admits function isFunction)) fun definition _ => ?_
            have := Lawful.typeOf (known value (List.mem_singleton_self value))
            infer_instance
  | expression value | whileLoop label condition body | doLoop label body condition =>
      dsimp only
      split <;> infer_instance
  | _ => infer_instance

/-- A statement that is in the program, or may be missing. -/
theorem statement
    [met : law.Met]
    {id : StmtId}
    (isNode : frame.node = .statement id)
    (known : law.Knows frame.node) :
    Moving law (Step.statement law.setting frame id incoming) := by
  unfold Step.statement
  split
  · infer_instance
  · rw [isNode] at known
    exact behind (.part known) fun node found => entered found

/-! ### Calls -/

/-- What follows the argument that has just been evaluated, with another argument or without. -/
theorem collecting
    {arguments : List ExprId}
    {next : Frame × Option ExprId → Step Move}
    (more : ∀ stay argument, Held law.places stay.pending → Moving law (next (stay, some argument)))
    (last : ∀ stay, Held law.places stay.pending → Moving law (next (stay, none))) :
    Moving law (Step.collect frame arguments incoming >>= next) := by
  have chosen (values : List Value) :
      Moving law (Step.collect { frame with values } arguments none >>= next) := by
    unfold Step.collect
    simp only [pure_bind]
    split
    · exact more _ _ pending
    · exact last _ pending
  cases incoming with
  | none => exact chosen frame.values
  | some completion =>
      have step : Step.collect frame arguments (some completion) >>= next =
          Step.valueOf (some completion) >>= fun value =>
            Step.collect { frame with values := frame.values ++ [value] } arguments none >>= next := by
        unfold Step.collect
        simp only [bind_assoc, pure_bind]
      rw [step]
      exact after fun value => chosen _

section Calls

variable {arguments : List ExprId} {ty : Ty} {demand : Demand}
  (known : ∀ id ∈ arguments, law.Has (law.setting.tree.expr? id).isSome)

include known

theorem call (function : FuncId) :
    Moving law (Step.call law.setting frame function arguments ty demand incoming) := by
  have := Lawful.bindCall known
  unfold Step.call
  split
  · exact collecting (fun _ _ _ => inferInstance) fun _ _ => inferInstance
  · infer_instance

theorem nativeCall [law.Met] (native : NativeId) :
    Moving law (Step.nativeCall law.setting frame native arguments ty demand incoming) := by
  have := Lawful.callNative known
  unfold Step.nativeCall
  exact collecting (fun _ _ _ => inferInstance) fun _ _ => inferInstance

omit held in
theorem invoke [law.Met] (slot : Option MethodSlot) (target : MethodImpl) :
    Moving law (Step.invoke law.setting frame slot target arguments ty demand) := by
  have := Lawful.bindCall known
  have := Lawful.callNative known
  unfold Step.invoke
  cases target <;> infer_instance

theorem methodCall [law.Met] (object : ExprId) (slot : Option MethodSlot) (target : MethodImpl) :
    Moving law
      (Step.methodCall law.setting frame object slot target arguments ty demand incoming) := by
  unfold Step.methodCall
  split
  · infer_instance
  · exact collecting (fun _ _ _ => inferInstance) fun _ _ => invoke known slot target
  · infer_instance

omit held in
theorem construct [law.Met] (constructor : Option MethodImpl) :
    Moving law (Step.construct law.setting frame constructor arguments ty demand) := by
  have := Lawful.bindCall known
  have := Lawful.callNative known
  unfold Step.construct
  refine after fun last => after fun this => ?_
  dsimp only
  split <;> infer_instance

theorem newInstance [law.Met] (owner : ClassId) (constructor : Option MethodImpl) :
    Moving law
      (Step.newInstance law.setting frame owner constructor arguments ty demand incoming) := by
  have bare (this : Option ObjectId) : law.Admits (.bare this) := fun _ isFunction => by
    cases isFunction
  have enter (this : Option ObjectId) :
      Lawful law (Step.pushActivation law.setting (.bare this)) :=
    Lawful.pushActivation (bare this)
  have : Moving law (Step.construct law.setting frame constructor arguments ty demand) :=
    construct known constructor
  unfold Step.newInstance
  split
  · exact collecting (fun _ _ _ => inferInstance) fun _ _ => inferInstance
  · infer_instance
  · infer_instance

end Calls

/-! ### Expressions -/

omit pending in
instance element (demand : Demand) : Moving law (Step.element frame demand incoming) := by
  unfold Step.element
  refine after fun position => ?_
  split
  · infer_instance
  · split <;> infer_instance

theorem arrayLiteral
    {tree : Tree}
    {items : List ExprId}
    (known : ∀ id ∈ items, law.Has (tree.expr? id).isSome)
    (ty : Ty)
    (demand : Demand) :
    Moving law (Step.arrayLiteral tree frame items ty demand incoming) := by
  unfold Step.arrayLiteral
  refine after fun element => ?_
  dsimp only
  split
  · refine after fun values => ?_
    split <;> infer_instance
  · refine after fun item => behind (.require _ _) fun id isItem => ?_
    have := Lawful.typeOf (known id (List.mem_of_getElem? isItem))
    refine after fun source => after fun value => after fun values => ?_
    split <;> infer_instance

/-- An expression that is in the program, or may be missing. -/
theorem expression
    [met : law.Met]
    {id : ExprId}
    {demand : Demand}
    (isNode : frame.node = .expression id demand)
    (isKnown : law.Knows frame.node) :
    Moving law (Step.expression law.setting frame id demand incoming) := by
  rw [isNode] at isKnown
  refine behind (.part isKnown) fun node found => ?_
  have known := met.children found
  have typed (child : ExprId) (isPart : child ∈ node.kind.children) :
      Lawful law (Step.typeOf law.setting.tree child) :=
    Lawful.typeOf (known child isPart)
  obtain ⟨kind, ty, span⟩ := node
  cases kind with
  | logical op left right =>
      dsimp only
      split
      · infer_instance
      · infer_instance
      · infer_instance
  | assign op common target source =>
      have := typed source (by simp [ExprKind.children])
      dsimp only
      split <;> infer_instance
  | binary op common left right =>
      have := typed left (by simp [ExprKind.children])
      have := typed right (by simp [ExprKind.children])
      dsimp only
      split <;> infer_instance
  | conditional condition whenTrue whenFalse =>
      have := typed whenTrue (by simp [ExprKind.children])
      have := typed whenFalse (by simp [ExprKind.children])
      dsimp only
      split
      · infer_instance
      · infer_instance
      · refine after fun value => ?_
        split <;> infer_instance
  | field object index | step op target | unary op operand | index array position =>
      dsimp only
      split <;> infer_instance
  | call function arguments => exact call known function
  | nativeCall native arguments => exact nativeCall known native
  | methodCall object slot target arguments =>
      exact methodCall (fun id isArgument => known id (List.mem_cons_of_mem _ isArgument)) _ _ _
  | new owner constructor arguments => exact newInstance known owner constructor
  | arrayLiteral items => exact arrayLiteral known ty demand
  | _ => infer_instance

/-! ### Functions, initial values and the root frame -/

omit held in
instance callEntry (entry : FuncId) : Moving law (Step.callEntry law.setting frame entry) := by
  refine behind (.require _ _) fun function found => ?_
  refine behind (.activationFor function entry none) fun activation isOwn => ?_
  have : Lawful law (Step.pushActivation law.setting activation) :=
    Lawful.pushActivation fun other isOther => by
      cases isOwn.symm.trans isOther
      exact .inr (Option.isSome_of_eq_some found)
  infer_instance

omit held in
instance startNext (entry : FuncId) : Moving law (Step.startNext law.setting frame entry) := by
  unfold Step.startNext
  dsimp only
  split <;> infer_instance

instance start [law.Met] (entry : FuncId) :
    Moving law (Step.start law.setting frame entry incoming) := by
  unfold Step.start
  split <;> infer_instance

/-- A function that is in the program, or may be missing. -/
theorem function
    {id : FuncId}
    (isNode : frame.node = .function id)
    (known : law.Knows frame.node) :
    Moving law (Step.function law.setting frame id incoming) := by
  rw [isNode] at known
  refine behind (.part known) fun function _ => ?_
  split
  · infer_instance
  · split
    · infer_instance
    · have := held.sited
      infer_instance
    · infer_instance

omit pending held in
/-- The fields of a new instance up to the next one with an initial value. -/
theorem setupFrom
    {stay : Frame}
    (pending : Held law.places stay.pending)
    (this : ObjectId)
    (fields : List FieldDef) :
    Moving law (Step.setupFrom this stay fields) := by
  induction fields generalizing stay with
  | nil => exact done
  | cons field rest inductionHypothesis =>
      have passed : Moving law
          (Step.setupFrom this { stay with cursor := stay.cursor + 1 } rest) :=
        inductionHypothesis pending
      unfold Step.setupFrom
      split <;> infer_instance

/-- The field values of a class that is in the program, or may be missing. -/
theorem fieldSetup
    [law.Met]
    {owner : ClassId}
    (isNode : frame.node = .fieldSetup owner)
    (known : law.Knows frame.node) :
    Moving law (Step.fieldSetup law.setting frame owner incoming) := by
  rw [isNode] at known
  refine behind (.part known) fun _ _ => after fun activation => after fun this => ?_
  split
  · exact after fun value => after fun _ => setupFrom (by exact pending) _ _
  · exact after fun _ => setupFrom pending _ _

/-- A frame whose node is in the program, or may be missing. -/
theorem ofFrame
    [law.Met]
    (known : law.Knows frame.node) :
    Moving law (Step.ofFrame law.setting frame incoming) := by
  unfold Step.ofFrame
  split
  · infer_instance
  · next isNode => exact function isNode known
  · next isNode => exact fieldSetup isNode known
  · next isNode => exact statement isNode known
  · next isNode => exact expression isNode known

end Frames

end Moving

end Step

end BotScript
