import BotScript.Proofs.BuildingPrograms
import BotScript.Proofs.NormalSteps

namespace BotScript

/-!
# Moves that keep frames normal

What a frame leaves in the chain is itself at another step, and perhaps a frame
on top of it.  Only expressions demand places, and they demand them of what they
write to.

A program that has been compiled writes to places and indexes arrays only, so
every place that its frames demand is one that can be written to.  A call adds an
activation of declared variables, to which the arguments are stored.
-/

/-- A frame of another node than an expression is normal. -/
theorem Frame.Normal.ofOther
    {tree : Tree}
    {frame : Frame}
    (isOther : frame.node.isExpression = false) :
    frame.Normal tree :=
  Frame.normal_of_other isOther

/-- A frame stays normal while it moves on, unless it collects the items of an array. -/
theorem Frame.Normal.stays
    {tree : Tree}
    {frame stay : Frame}
    {id : ExprId}
    {demand : Demand}
    (normal : frame.Normal tree)
    (isNode : frame.node = .expression id demand)
    (isOther : ∀ items, (tree.expr id).kind ≠ .arrayLiteral items)
    (same : stay.node = frame.node) :
    stay.Normal tree where
  place other isOther := normal.place other (same ▸ isOther)
  items other demand isOtherNode items isLiteral := by
    rw [same, isNode] at isOtherNode
    cases isOtherNode
    exact absurd isLiteral (isOther items)

namespace Step

/-- The move of a frame keeps cells normal and leaves normal frames. -/
def Moves (tree : Tree) (step : Step Move) : Prop :=
  step.Normalizes (Move.Normal tree)

namespace Moves

variable {tree : Tree} {setting : Setting} {frame : Frame} {incoming : Option Completion}

open Frame (enter_normal enter_value enter_place)

/-! ## Single moves -/

/-- What follows a step. -/
theorem after
    {α : Type}
    {step : Step α}
    {next : α → Step Move}
    [Normalizing step]
    (rest : ∀ value, Moves tree (next value)) :
    Moves tree (step >>= next) :=
  Normalizes.after rest

/-- An error. -/
theorem raise
    (code : ErrorCode) :
    Moves tree (Step.raise code) :=
  Normalizes.raise code

/-- A frame that is done. -/
theorem complete
    (completion : Completion) :
    Moves tree (Pure.pure (.complete completion)) :=
  Normalizes.pure trivial

/-- The end of a statement. -/
theorem done : Moves tree Step.done :=
  complete _

/-- A counted step. -/
theorem tick
    (stays : frame.Normal tree) :
    Moves tree (Pure.pure (.tick frame)) :=
  Normalizes.pure stays

/-- A statement on top of a frame. -/
theorem pushStatement
    (stays : frame.Normal tree)
    (id : StmtId) :
    Moves tree (Pure.pure (Step.pushStatement frame id)) :=
  Normalizes.pure ⟨stays, enter_normal rfl⟩

/-- An expression on top of a frame that needs its value. -/
theorem pushValue
    (stays : frame.Normal tree)
    (id : ExprId) :
    Moves tree (Pure.pure (Step.pushExpression frame id .value)) :=
  Normalizes.pure ⟨stays, enter_value id frame.act⟩

/-- An expression on top of a frame that needs its place. -/
theorem pushPlace
    {id : ExprId}
    (stays : frame.Normal tree)
    (placeable : tree.Placeable id) :
    Moves tree (Pure.pure (Step.pushExpression frame id .place)) :=
  Normalizes.pure ⟨stays, enter_place placeable frame.act⟩

/-- A frame with an activation of its own on top of a frame. -/
theorem pushOwner
    {node : Node}
    {act : UInt32}
    (stays : frame.Normal tree)
    (isOther : node.isExpression = false) :
    Moves tree (Pure.pure (.push frame (.enter node act))) :=
  Normalizes.pure ⟨stays, enter_normal isOther⟩

/-- A delivered cell or its value. -/
theorem deliver
    (cell : CellId)
    (demand : Demand) :
    Moves tree (Step.deliver cell demand) := by
  cases demand with
  | place => exact complete _
  | value => exact after fun _ => complete _

/-- A delivered value; a new cell holds it only if it is a reference. -/
theorem produce
    {ty : Ty}
    {demand : Demand}
    (isReference : demand = .place → ty.isReference = true)
    (value : Value) :
    Moves tree (Step.produce value ty demand) := by
  cases demand with
  | value => exact complete _
  | place =>
      have : Normalizing (Step.allocate fun heap => heap.addCell (.withValue ty value)) :=
        .allocate fun _ normal => normal.addCell (.inr (Ty.holds_of_isReference (isReference rfl) _))
      exact after fun _ => complete _

/-! ## Statements -/

section Statements

variable (isOther : frame.node.isExpression = false)

include isOther

section Guarded

variable {body : List StmtId} {clauses : List CatchClause} {final : Option StmtId}

/-- The final block of a try statement. -/
theorem runFinal : Moves tree (Step.runFinal frame final) := by
  unfold Step.runFinal
  split
  · exact pushStatement (.ofOther (by exact isOther)) _
  · exact complete _

/-- The handler of the chosen clause. -/
theorem runHandler : Moves tree (Step.runHandler frame clauses) :=
  after fun _ => pushStatement (.ofOther (by exact isOther)) _

/-- The test of the clause under the second cursor. -/
theorem matchClause : Moves tree (Step.matchClause frame clauses final) := by
  unfold Step.matchClause
  split
  · exact pushValue (.ofOther (by exact isOther)) _
  · exact runFinal (by exact isOther)

/-- The next statement of the body. -/
theorem nextGuarded : Moves tree (Step.nextGuarded frame body final) := by
  unfold Step.nextGuarded
  split
  · exact pushStatement (.ofOther (by exact isOther)) _
  · exact runFinal (by exact isOther)

/-- The poll of the next boolean clause. -/
theorem poll
    {otherwise : Frame → Step Move}
    (goesOn : ∀ stay : Frame, stay.node.isExpression = false → Moves tree (otherwise stay)) :
    Moves tree (Step.poll frame clauses otherwise) := by
  unfold Step.poll
  split
  · exact pushValue (.ofOther (by exact isOther)) _
  · exact goesOn _ (by exact isOther)

/-- What follows a statement of the body. -/
theorem bodyEnded : Moves tree (Step.bodyEnded frame body clauses final incoming) := by
  unfold Step.bodyEnded
  split
  · exact nextGuarded isOther
  · exact matchClause (by exact isOther)
  · split
    · exact runFinal (by exact isOther)
    · split
      · exact poll (by exact isOther) fun _ isOther => nextGuarded isOther
      · exact nextGuarded isOther

/-- What follows the test of a clause. -/
theorem matchEnded : Moves tree (Step.matchEnded frame clauses final incoming) := by
  unfold Step.matchEnded
  split
  · exact runFinal (by exact isOther)
  · refine after fun clause => after fun tested => after fun caught => ?_
    split
    · exact runHandler (by exact isOther)
    · exact matchClause (by exact isOther)

/-- What follows the poll of a boolean clause. -/
theorem pollEnded : Moves tree (Step.pollEnded frame body clauses final incoming) := by
  unfold Step.pollEnded
  split
  · exact matchClause (by exact isOther)
  · refine after fun holds => ?_
    split
    · exact runHandler (by exact isOther)
    · exact poll (by exact isOther) fun _ isOther => nextGuarded isOther

/-- A try statement. -/
theorem guarded : Moves tree (Step.guarded frame body clauses final incoming) := by
  unfold Step.guarded
  split
  · exact bodyEnded isOther
  · exact poll (by exact isOther) fun _ isOther => bodyEnded isOther
  · exact pollEnded isOther
  · exact matchClause (by exact isOther)
  · exact matchEnded isOther
  · exact runHandler (by exact isOther)
  · exact runFinal (by exact isOther)
  · exact runFinal (by exact isOther)
  · exact complete _

end Guarded

/-- The statement under the cursor. -/
theorem nextStatement
    (statements : List StmtId) :
    Moves tree (Step.nextStatement frame statements) := by
  unfold Step.nextStatement
  split
  · exact pushStatement (.ofOther (by exact isOther)) _
  · exact done

/-- The declaration of a variable. -/
theorem declare
    (slot : LocalSlot)
    (limits : Limits)
    (initial : Option ExprId) :
    Moves tree (Step.declare setting.tree frame slot limits initial incoming) := by
  unfold Step.declare
  refine after fun activation => after fun former => after fun heap => ?_
  have place (cell : CellId) :
      Moves tree (do
        modify fun memory =>
          { memory with
            activations := memory.activations.setIfInBounds frame.act.toNat
              { activation with locals := activation.locals.setIfInBounds slot.index cell } }
        Step.done) :=
    have : Normalizing (modify fun memory : Memory =>
        { memory with
          activations := memory.activations.setIfInBounds frame.act.toNat
            { activation with locals := activation.locals.setIfInBounds slot.index cell } } :
          Step PUnit) :=
      .elsewhere fun _ => rfl
    after fun _ => done
  split
  · exact pushValue (.ofOther (by exact isOther)) _
  · exact after fun cell => place cell
  · exact after fun value => after fun initial => after fun cell => after fun source =>
      after fun _ => place cell

/-! ### Loops -/

/-- The test of a counting loop that has been evaluated. -/
theorem forTested
    (body : StmtId) :
    Moves tree (Step.forTested frame body incoming) := by
  have started (goOn : Bool) :
      Moves tree
        (if goOn then Pure.pure (Step.pushStatement { frame with state := 4 } body)
        else Step.done) := by
    split
    · exact pushStatement (.ofOther (by exact isOther)) _
    · exact done
  unfold Step.forTested
  split
  · exact after fun goOn => started goOn
  · exact started true

/-- The test of a counting loop. -/
theorem forTest
    (condition : Option ExprId)
    (body : StmtId) :
    Moves tree (Step.forTest frame condition body incoming) := by
  unfold Step.forTest
  split
  · exact pushValue (.ofOther (by exact isOther)) _
  · exact forTested (by exact isOther) body

/-- The expressions that a counting loop evaluates after its body. -/
theorem forSteps
    (steps : List ExprId) :
    Moves tree (Step.forSteps frame steps) := by
  unfold Step.forSteps
  split
  · exact pushValue (.ofOther (by exact isOther)) _
  · exact tick (.ofOther (by exact isOther))

/-- A counting loop. -/
theorem forLoop
    (label : Option String)
    (initial : List StmtId)
    (condition : Option ExprId)
    (steps : List ExprId)
    (body : StmtId) :
    Moves tree (Step.forLoop frame label initial condition steps body incoming) := by
  unfold Step.forLoop
  split
  · refine after fun _ => ?_
    split
    · exact pushStatement (.ofOther (by exact isOther)) _
    · exact forTest isOther condition body
  · exact forTest isOther condition body
  · exact forTested (by exact isOther) body
  · refine after fun goesOn => ?_
    split
    · exact forSteps (by exact isOther) steps
    · exact done
  · dsimp only
    split
    · exact after fun _ => forSteps (by exact isOther) steps
    · exact forSteps (by exact isOther) steps

/-- The next round of a loop with a number of rounds. -/
theorem nextRound
    (body : StmtId) :
    Moves tree (Step.nextRound frame body) := by
  unfold Step.nextRound
  dsimp only
  split
  · exact done
  · exact pushStatement (.ofOther (by exact isOther)) _

/-- A loop with a number of rounds. -/
theorem repeatLoop
    (label : Option String)
    (count : ExprId)
    (body : StmtId) :
    Moves tree (Step.repeatLoop frame label count body incoming) := by
  unfold Step.repeatLoop
  split
  · exact pushValue (.ofOther (by exact isOther)) _
  · refine after fun value => ?_
    split
    · exact raise _
    · exact after fun rounds => nextRound (by exact isOther) body
  · exact nextRound (by exact isOther) body
  · refine after fun goesOn => ?_
    split
    · exact tick (.ofOther (by exact isOther))
    · exact done

/-- A switch. -/
theorem switchOn
    (value : ExprId)
    (cases : List SwitchCase)
    (body : List StmtId) :
    Moves tree (Step.switchOn frame value cases body incoming) := by
  unfold Step.switchOn
  split
  · exact pushValue (.ofOther (by exact isOther)) _
  · refine after fun tested => after fun selected => ?_
    dsimp only
    split
    · exact nextStatement (by exact isOther) body
    · exact done
  · split
    · exact done
    · exact after fun _ => nextStatement (by exact isOther) body

omit isOther in
/-- A thrown exception. -/
theorem thrown
    (value : Value)
    (span : Span) :
    Moves tree (Step.thrown value span) := by
  refine after fun code => ?_
  split
  · exact complete _
  · exact raise _

/-- A statement that has been entered. -/
theorem entered
    (node : Stmt) :
    Moves tree (Step.entered setting frame node incoming) := by
  obtain ⟨kind, span⟩ := node
  unfold Step.entered
  cases kind with
  | expression value =>
      dsimp only
      split
      · exact pushValue (.ofOther (by exact isOther)) _
      · exact after fun _ => done
  | declare slot limits initial => exact declare isOther _ _ _
  | block statements => exact after fun _ => nextStatement (by exact isOther) _
  | branch condition whenTrue whenFalse =>
      dsimp only
      split
      · exact pushValue (.ofOther (by exact isOther)) _
      · refine after fun holds => ?_
        split
        · exact pushStatement (.ofOther (by exact isOther)) _
        · exact done
      · exact after fun _ => done
  | whileLoop label condition body =>
      dsimp only
      split
      · exact pushValue (.ofOther (by exact isOther)) _
      · refine after fun holds => ?_
        split
        · exact pushStatement (.ofOther (by exact isOther)) _
        · exact done
      · refine after fun goesOn => ?_
        split
        · exact tick (.ofOther (by exact isOther))
        · exact done
  | doLoop label body condition =>
      dsimp only
      split
      · exact pushStatement (.ofOther (by exact isOther)) _
      · refine after fun goesOn => ?_
        split
        · exact tick (.ofOther (by exact isOther))
        · exact done
      · exact pushValue (.ofOther (by exact isOther)) _
      · refine after fun holds => ?_
        split
        · exact pushStatement (.ofOther (by exact isOther)) _
        · exact done
  | forLoop label initial condition steps body => exact forLoop isOther _ _ _ _ _
  | repeatLoop label count body => exact repeatLoop isOther _ _ _
  | switchOn value cases body => exact switchOn isOther _ _ _
  | breakTo label => exact complete _
  | continueTo label => exact complete _
  | returnWith value =>
      cases value with
      | none => exact complete _
      | some value =>
          dsimp only
          split
          · exact pushValue (.ofOther (by exact isOther)) _
          · exact after fun result => after fun activation => after fun id => after fun function =>
              after fun source => after fun result => complete _
  | throwCode value =>
      dsimp only
      split
      · exact pushValue (.ofOther (by exact isOther)) _
      · exact after fun value => thrown value _
  | guarded body clauses final => exact guarded isOther

/-- A statement. -/
theorem statement
    (id : StmtId) :
    Moves tree (Step.statement setting frame id incoming) := by
  unfold Step.statement
  split
  · exact tick (.ofOther (by exact isOther))
  · exact after fun node => entered isOther node

end Statements

end Moves

end Step

/-- What is written to denotes a place, and what is indexed is an array. -/
def Tree.WritesPlaces (tree : Tree) : Prop :=
  ∀ id node, tree.expr? id = some node → tree.Apt node.kind

/-- The tree of an accepted program writes to places. -/
theorem compile_writesPlaces
    {registry : Registry}
    {tokens : TokenList}
    {tree : Tree}
    (accepted : compile registry tokens = .ok tree) :
    tree.WritesPlaces := by
  obtain ⟨own, sound⟩ := (compile_built registry.offers_all accepted).sound
  exact fun id node found => (sound.exprs id.index node found).apt

namespace Step

variable {tree : Tree} {setting : Setting} {frame : Frame} {incoming : Option Completion}

/-! ## Expressions -/

namespace Normalizes

/-- A converted value is one of the target type. -/
theorem convert
    (value : Value)
    (source target : Ty) :
    Normalizes target.Holds (Step.convert value source target) := by
  refine after fun heap => ?_
  intro memory normal
  obtain ⟨afterNormal, isConverted⟩ := ofChecked (heap.convert value source target) memory normal
  exact ⟨afterNormal, fun result delivered => Heap.convertWhile_holds (isConverted result delivered)⟩

/-- The argument that has just been evaluated. -/
theorem collect
    (arguments : List ExprId) :
    Normalizes (fun collected => collected.1.node = frame.node)
      (Step.collect frame arguments incoming) := by
  have chosen (values : List Value) :
      Normalizes (fun collected => collected.1.node = frame.node)
        (Step.collect { frame with values } arguments none) := by
    unfold Step.collect
    simp only [pure_bind]
    split
    · exact pure rfl
    · exact pure rfl
  cases incoming with
  | none => exact chosen frame.values
  | some completion => exact after fun value => chosen (frame.values ++ [value])

end Normalizes

namespace Moves

/-- What follows the argument that has just been evaluated, with another argument or without. -/
theorem collecting
    {arguments : List ExprId}
    {next : Frame × Option ExprId → Step Move}
    (more : ∀ stay argument, stay.node = frame.node → Moves tree (next (stay, some argument)))
    (last : ∀ stay, stay.node = frame.node → Moves tree (next (stay, none))) :
    Moves tree (Step.collect frame arguments incoming >>= next) := by
  refine (Normalizes.collect arguments).bind fun collected same => ?_
  obtain ⟨stay, argument⟩ := collected
  cases argument with
  | some argument => exact more stay argument same
  | none => exact last stay same

/-- A function on top of a frame, over the activation of its call. -/
theorem enterFunction
    (stays : frame.Normal tree)
    (id : FuncId)
    (this : Option ObjectId)
    (arguments : List ExprId)
    (values : List Value) :
    Moves tree (do
      let act ← Step.bind setting id this arguments values
      Pure.pure (.push frame (.enter (.function id) act))) :=
  after fun _ => pushOwner stays rfl

section Expressions

variable {ty : Ty} {demand : Demand}
  (stays : ∀ stay : Frame, stay.node = frame.node → stay.Normal tree)
  (isReference : demand = .place → ty.isReference = true)

include stays isReference

/-- A call of a function of the program. -/
theorem call
    (function : FuncId)
    (arguments : List ExprId) :
    Moves tree (Step.call setting frame function arguments ty demand incoming) := by
  unfold Step.call
  split
  · exact collecting (fun stay argument same => pushValue (stays _ same) _)
      fun stay same => enterFunction (stays _ (by exact same)) _ _ _ _
  · exact after fun value => produce isReference value

variable (natives : setting.registry.WritesCells)

include natives

omit stays isReference in
/-- A function of the host. -/
theorem callNative
    (id : NativeId)
    (this : Option ObjectId)
    (arguments : List ExprId)
    (values : List Value) :
    Normalizing (Step.callNative setting id this arguments values) :=
  .andThen fun types => have := natives id ⟨this, values, types⟩; .ofAction _

/-- A call of a function of the host. -/
theorem nativeCall
    (native : NativeId)
    (arguments : List ExprId) :
    Moves tree (Step.nativeCall setting frame native arguments ty demand incoming) := by
  refine collecting (fun stay argument same => pushValue (stays _ same) _) fun stay same => ?_
  have := callNative natives native none arguments stay.values
  exact after fun value => produce isReference value

/-- A call of a method. -/
theorem methodCall
    (object : ExprId)
    (slot : Option MethodSlot)
    (target : MethodImpl)
    (arguments : List ExprId) :
    Moves tree (Step.methodCall setting frame object slot target arguments ty demand incoming) := by
  unfold Step.methodCall
  split
  · exact pushValue (stays _ (by rfl)) _
  · refine collecting (fun stay argument same => pushValue (stays _ same) _) fun stay same => ?_
    refine after fun this => ?_
    cases target with
    | user declared => exact after fun heap => enterFunction (stays _ (by exact same)) _ _ _ _
    | native id =>
        have := callNative natives id (some this) arguments (stay.values.drop 1)
        exact after fun value => produce isReference value
  · exact after fun value => produce isReference value

/-- The call of a constructor. -/
theorem construct
    (constructor : Option MethodImpl)
    (arguments : List ExprId) :
    Moves tree (Step.construct setting frame constructor arguments ty demand) := by
  refine after fun last => after fun this => ?_
  dsimp only
  split
  · exact produce isReference _
  · exact enterFunction (stays _ (by rfl)) _ _ _ _
  · next id =>
    have := callNative natives id (some this) arguments frame.values.dropLast
    exact after fun _ => produce isReference _

/-- A new instance. -/
theorem newInstance
    (owner : ClassId)
    (constructor : Option MethodImpl)
    (arguments : List ExprId) :
    Moves tree
      (Step.newInstance setting frame owner constructor arguments ty demand incoming) := by
  unfold Step.newInstance
  split
  · exact collecting (fun stay argument same => pushValue (stays _ same) _)
      fun stay same => after fun layout => after fun object => after fun act =>
        pushOwner (stays _ (by exact same)) rfl
  · exact after fun _ => construct stays isReference natives constructor arguments
  · exact after fun _ => after fun this => produce isReference _

end Expressions

/-- An element of an array. -/
theorem element
    (demand : Demand) :
    Moves tree (Step.element frame demand incoming) := by
  refine after fun position => ?_
  split
  · exact after fun holder => after fun array => after fun heap => after fun position =>
      after fun cell => after fun cell => complete _
  · split
    · exact after fun heap => after fun cell => deliver _ _
    · exact raise _
    · exact raise _

section Nodes

variable {id : ExprId} {demand : Demand}
  (isNode : frame.node = .expression id demand) (normal : frame.Normal tree)

include isNode normal

/-- The literal of an array: what the frame holds is converted to the type of the elements. -/
theorem arrayLiteral
    {items : List ExprId}
    (isLiteral : (tree.expr id).kind = .arrayLiteral items)
    (isReference : demand = .place → (tree.expr id).ty.isReference = true) :
    Moves tree (Step.arrayLiteral tree frame items (tree.expr id).ty demand incoming) := by
  refine (Normalizes.require _ _).bind fun element isElement => ?_
  have pushes (values : List Value) (hold : ∀ value ∈ values, element.Holds value) (next : ExprId) :
      Moves tree
        (Pure.pure (Step.pushExpression { frame with values, cursor := frame.cursor + 1 } next
          .value)) := by
    refine pushValue ?_ _
    refine ⟨fun other isOther => normal.place other isOther, ?_⟩
    intro other otherDemand isOther otherItems _ otherElement isOtherElement
    rw [isNode] at isOther
    cases isOther
    cases isElement.symm.trans isOtherElement
    exact hold
  have places (values : List Value) (hold : ∀ value ∈ values, element.Holds value) :
      Normalizing (Step.allocate fun heap =>
        (heap.addCells (values.map fun value => Cell.withValue element value)).2.addArray
          ⟨element, [],
            (heap.addCells (values.map fun value => Cell.withValue element value)).1⟩) := by
    refine .allocate fun heap heapNormal => Heap.Normal.ofCells (heapNormal.addCells ?_) rfl
    intro cell isCell
    obtain ⟨value, isValue, rfl⟩ := List.mem_map.mp isCell
    exact .inr (hold value isValue)
  have held : ∀ value ∈ frame.values, element.Holds value :=
    normal.items id demand isNode items isLiteral element isElement
  have holding (values : List Value) (hold : ∀ value ∈ values, element.Holds value) :
      Normalizes (fun values => ∀ value ∈ values, element.Holds value) (Pure.pure values) :=
    .pure hold
  cases incoming with
  | none =>
      refine (holding _ held).bind fun values hold => ?_
      have placed := places values hold
      dsimp only
      split
      · exact pushes values hold _
      · split
        · exact after fun _ => after fun array => produce isReference _
        · exact after fun array => produce isReference _
  | some completion =>
      refine after fun item => after fun source => after fun ty => ?_
      refine (Normalizes.convert item ty element).bind fun item holds => ?_
      have hold : ∀ value ∈ frame.values ++ [item], element.Holds value :=
        List.forall_mem_append.mpr ⟨held, List.forall_mem_singleton.mpr holds⟩
      refine (holding _ hold).bind fun values hold => ?_
      have placed := places values hold
      dsimp only
      split
      · exact pushes values hold _
      · split
        · exact after fun _ => after fun array => produce isReference _
        · exact after fun array => produce isReference _

/-- An expression. -/
theorem expression
    (writes : tree.WritesPlaces)
    (natives : setting.registry.WritesCells)
    (isTree : setting.tree = tree) :
    Moves tree (Step.expression setting frame id demand incoming) := by
  subst isTree
  refine (Normalizes.part _).bind fun node found => ?_
  have isExpr : setting.tree.expr id = node := by simp [Tree.expr, found]
  have apt := writes id node found
  obtain ⟨kind, ty, span⟩ := node
  have isReference (isOther : kind.isPlace = false) (isPlace : demand = .place) :
      ty.isReference = true := by
    subst isPlace
    have placeable := normal.place id isNode
    rw [Tree.Placeable, isExpr] at placeable
    simpa [isOther] using placeable
  have stays (isOther : ∀ items, kind ≠ .arrayLiteral items) (stay : Frame)
      (same : stay.node = frame.node) :
      stay.Normal setting.tree :=
    normal.stays isNode (by rwa [isExpr]) same
  dsimp only
  cases kind with
  | literal value => exact produce (isReference rfl) _
  | localVar slot => exact after fun activation => after fun cell => deliver _ _
  | this => exact after fun activation => produce (isReference rfl) _
  | field object index =>
      dsimp only
      split
      · exact pushValue (stays (by simp) _ (by rfl)) _
      · exact after fun value => after fun object => after fun heap => after fun cell => deliver _ _
  | staticField owner index => exact after fun memory => after fun cell => deliver _ _
  | index array position =>
      obtain ⟨inner, isArray⟩ := apt
      dsimp only
      split
      · rename_i demand _ _ _
        cases demand with
        | value => exact pushValue (stays (by simp) _ (by rfl)) _
        | place => exact pushPlace (stays (by simp) _ (by rfl)) (.inr (by rw [isArray]; rfl))
      · exact after fun cell => pushValue (stays (by simp) _ (by rfl)) _
      · exact after fun value => pushValue (stays (by simp) _ (by rfl)) _
      · exact element _
  | assign op common target source =>
      dsimp only
      split
      · exact pushPlace (stays (by simp) _ (by rfl)) (.inl apt)
      · exact after fun cell => pushValue (stays (by simp) _ (by rfl)) _
      · exact after fun assigned => after fun cell => after fun source => after fun _ =>
          after fun heap => produce (isReference rfl) _
  | step op target =>
      dsimp only
      split
      · exact pushPlace (stays (by simp) _ (by rfl)) (.inl apt)
      · exact after fun cell => after fun before => after fun last => after fun heap =>
          after fun _ => produce (isReference rfl) _
  | binary op common left right =>
      dsimp only
      split
      · exact pushValue (stays (by simp) _ (by rfl)) _
      · exact after fun value => pushValue (stays (by simp) _ (by rfl)) _
      · exact after fun value => after fun rightType => after fun second => after fun first =>
          after fun leftType => after fun first => after fun result => produce (isReference rfl) _
  | logical op left right =>
      dsimp only
      split
      · exact pushValue (stays (by simp) _ (by rfl)) _
      · refine after fun first => ?_
        split
        · exact produce (isReference rfl) _
        · exact pushValue (stays (by simp) _ (by rfl)) _
      · exact after fun second => produce (isReference rfl) _
  | conditional condition whenTrue whenFalse =>
      dsimp only
      split
      · exact pushValue (stays (by simp) _ (by rfl)) _
      · refine after fun holds => ?_
        split
        · exact pushValue (stays (by simp) _ (by rfl)) _
        · exact pushValue (stays (by simp) _ (by rfl)) _
      · exact after fun value => after fun source => after fun result => produce (isReference rfl) _
  | unary op operand =>
      dsimp only
      split
      · exact pushValue (stays (by simp) _ (by rfl)) _
      · exact after fun value => after fun result => produce (isReference rfl) _
  | call function arguments => exact call (stays (by simp)) (isReference rfl) _ _
  | nativeCall native arguments => exact nativeCall (stays (by simp)) (isReference rfl) natives _ _
  | methodCall object slot target arguments =>
      exact methodCall (stays (by simp)) (isReference rfl) natives _ _ _ _
  | new owner constructor arguments =>
      exact newInstance (stays (by simp)) (isReference rfl) natives _ _ _
  | arrayLiteral items =>
      have literal :
          Moves setting.tree
            (Step.arrayLiteral setting.tree frame items (setting.tree.expr id).ty demand
              incoming) :=
        arrayLiteral isNode normal (by rw [isExpr]) (by rw [isExpr]; exact isReference rfl)
      rwa [isExpr] at literal

end Nodes

/-! ## Frames that own activations -/

section Owners

variable (isOther : frame.node.isExpression = false)

include isOther

/-- The call of the entry function. -/
theorem callEntry
    (entry : FuncId) :
    Moves tree (Step.callEntry setting frame entry) :=
  after fun function => after fun activation => after fun act =>
    pushOwner (.ofOther (by exact isOther)) rfl

/-- The next initial value of a static field, or the entry function. -/
theorem startNext
    (entry : FuncId) :
    Moves tree (Step.startNext setting frame entry) := by
  unfold Step.startNext
  dsimp only
  split
  · exact pushValue (.ofOther (by exact isOther)) _
  · exact callEntry (by exact isOther) entry

/-- A step of the root frame. -/
theorem start
    (entry : FuncId) :
    Moves tree (Step.start setting frame entry incoming) := by
  unfold Step.start
  split
  · exact startNext isOther entry
  · exact after fun value => after fun _ => startNext (by exact isOther) entry
  · exact callEntry isOther entry
  · exact after fun value => complete _

/-- A step of the body of a function. -/
theorem function
    (id : FuncId) :
    Moves tree (Step.function setting frame id incoming) := by
  refine after fun function => ?_
  split
  · exact after fun body => pushStatement (.ofOther (by exact isOther)) _
  · split
    · exact complete _
    · exact complete _
    · split
      · exact complete _
      · exact raise _

/-- The fields of a new instance, up to the next initial value. -/
theorem setupFrom
    (this : ObjectId)
    (fields : List FieldDef) :
    Moves tree (Step.setupFrom this frame fields) := by
  induction fields generalizing frame with
  | nil => exact done
  | cons field rest inductionHypothesis =>
      unfold Step.setupFrom
      split
      · exact pushValue (.ofOther (by exact isOther)) _
      · have goesOn := @inductionHypothesis { frame with cursor := frame.cursor + 1 } isOther
        dsimp only
        split
        · refine after fun heap => after fun cell => ?_
          refine (Normalizing.freshCell _ _).bind fun content fits => ?_
          have : Normalizing (Step.modifyHeap fun heap => heap.setCell cell content) :=
            .allocate fun _ normal => normal.setCell cell fits
          exact after fun _ => goesOn
        · exact goesOn

/-- A step of the field values of a new instance. -/
theorem fieldSetup
    (owner : ClassId) :
    Moves tree (Step.fieldSetup setting frame owner incoming) := by
  refine after fun entry => after fun activation => after fun this => ?_
  dsimp only
  split
  · exact after fun value => after fun _ => setupFrom (by exact isOther) _ _
  · exact after fun _ => setupFrom isOther _ _

end Owners

/-- The step of a normal frame. -/
theorem ofFrame
    (writes : setting.tree.WritesPlaces)
    (natives : setting.registry.WritesCells)
    (normal : frame.Normal setting.tree) :
    Moves setting.tree (Step.ofFrame setting frame incoming) := by
  unfold Step.ofFrame
  split
  · next isNode => exact start (by rw [isNode]; rfl) _
  · next isNode => exact function (by rw [isNode]; rfl) _
  · next isNode => exact fieldSetup (by rw [isNode]; rfl) _
  · next isNode => exact statement (by rw [isNode]; rfl) _
  · next isNode => exact expression isNode normal writes natives rfl

end Moves

end Step

end BotScript
