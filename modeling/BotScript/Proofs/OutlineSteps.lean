import BotScript.Proofs.Outline

namespace BotScript

/-!
# Moves over outlines

The step of a frame, whatever its node, makes one of the moves that keep the
activations in step with the frames.  A frame that it pushes either owns the
activation that the step has added, or reads its variables where the frame
itself does.
-/

namespace Step

variable {α : Type} {setting : Setting} {held : List Outline} {origin frame : Frame}
  {incoming : Option Completion}

namespace Obeys

/-- A step and the move that follows it. -/
theorem bind
    {post : α → Prop}
    {step : Step α}
    {next : α → Step Move}
    (first : Retains held origin.node post step)
    (rest : ∀ value, post value → Obeys setting origin held (next value)) :
    Obeys setting origin held (step >>= next) := by
  intro memory same
  have retained := first memory same
  simp only [ExceptT.run_bind, StateT.run_bind]
  revert retained
  generalize step.run.run memory = reached
  intro retained
  cases retained with
  | ok outlines holds => exact rest _ holds _ outlines
  | fault outlines => exact .fault outlines
  | propagate outlines delivers => exact .propagate outlines delivers

/-- An error. -/
theorem raise
    (code : ErrorCode) :
    Obeys setting origin held (Step.raise code) :=
  fun _ same => .fault same

/-- A frame that is done. -/
theorem complete
    {completion : Completion}
    (delivers : origin.node.Delivers completion) :
    Obeys setting origin held (Pure.pure (.complete completion)) :=
  fun _ same => .complete delivers same

/-- A counted step of a statement. -/
theorem tick
    (isStatement : ∃ id, origin.node = .statement id)
    (stays : frame.Stays origin) :
    Obeys setting origin held (Pure.pure (.tick frame)) :=
  fun _ same => .tick stays isStatement same

/-- A statement on top of a frame. -/
theorem pushStatement
    (runs : origin.node.runsStatements = true)
    (stays : frame.Stays origin)
    (id : StmtId) :
    Obeys setting origin held (Pure.pure (Step.pushStatement frame id)) := by
  intro memory same
  unfold Step.pushStatement
  rw [stays.2]
  exact .pushPart stays rfl (fun _ _ => runs) same

/-- An expression on top of a frame. -/
theorem pushExpression
    (stays : frame.Stays origin)
    (id : ExprId)
    (demand : Demand) :
    Obeys setting origin held (Pure.pure (Step.pushExpression frame id demand)) := by
  intro memory same
  unfold Step.pushExpression
  rw [stays.2]
  exact .pushPart stays rfl (fun _ isStatement => by cases isStatement) same

/-- A frame with a new activation on top of a frame. -/
theorem pushOwner
    {node : Node}
    {activation : Activation}
    (stays : frame.Stays origin)
    (owns : node.ownsActivation = true)
    (heads : node.Heads setting.tree activation.outline) :
    Obeys setting origin held (do
      let act ← Step.pushActivation setting activation
      Pure.pure (.push frame (.enter node act))) := by
  rintro memory rfl
  simp only [ExceptT.run_bind, StateT.run_bind, run_pushActivation]
  split
  · exact .fault rfl
  · next free =>
      have depth := setting.callDepth.toNat_lt
      have free : memory.outlines.length < setting.callDepth.toNat := by
        rw [Memory.length_outlines]
        omega
      refine .pushOwner stays owns heads free ?_ ?_
      · rw [Memory.length_outlines] at free ⊢
        exact UInt32.toNat_ofNat_of_lt' (by simp only [UInt32.size]; omega)
      · simp [Memory.outlines]

/-- A delivered cell or its value. -/
theorem deliver
    {id : ExprId}
    {demand : Demand}
    (isNode : origin.node = .expression id demand)
    (cell : CellId) :
    Obeys setting origin held (Step.deliver cell demand) := by
  cases demand with
  | place => exact complete (isNode ▸ trivial)
  | value => exact bind (.read cell) fun _ _ => complete (isNode ▸ trivial)

/-- A delivered value. -/
theorem produce
    {id : ExprId}
    {demand : Demand}
    (isNode : origin.node = .expression id demand)
    (value : Value)
    (ty : Ty) :
    Obeys setting origin held (Step.produce value ty demand) := by
  cases demand with
  | value => exact complete (isNode ▸ trivial)
  | place => exact bind (.allocate _) fun _ _ => complete (isNode ▸ trivial)

/-! ## Statements -/

section Statements

variable {id : StmtId} (isNode : origin.node = .statement id)

include isNode

/-- Statements run statements. -/
private theorem runs : origin.node.runsStatements = true := by
  rw [isNode]
  rfl

/-- Statements hand on whatever they are handed. -/
private theorem handsOn : HandsOn origin.node incoming := by
  rw [isNode]
  exact fun _ _ _ => trivial

/-- The end of a statement. -/
theorem done : Obeys setting origin held Step.done :=
  complete (isNode ▸ trivial)

/-- What a statement ends with. -/
theorem ends
    (completion : Completion) :
    Obeys setting origin held (Pure.pure (.complete completion)) :=
  complete (isNode ▸ trivial)

section Guarded

variable {body : List StmtId} {clauses : List CatchClause} {final : Option StmtId}
  (stays : frame.Stays origin)

include stays

/-- The final block of a try statement. -/
theorem runFinal :
    Obeys setting origin held (Step.runFinal frame final) := by
  unfold Step.runFinal
  split
  · exact pushStatement (runs isNode) (by exact stays) _
  · exact ends isNode _

/-- The handler of the chosen clause. -/
theorem runHandler :
    Obeys setting origin held (Step.runHandler frame clauses) :=
  bind (.require _ _) fun _ _ => pushStatement (runs isNode) (by exact stays) _

/-- The test of the clause under the second cursor. -/
theorem matchClause :
    Obeys setting origin held (Step.matchClause frame clauses final) := by
  unfold Step.matchClause
  split
  · exact pushExpression (by exact stays) _ _
  · exact runFinal isNode (by exact stays)

/-- The next statement of the body. -/
theorem nextGuarded :
    Obeys setting origin held (Step.nextGuarded frame body final) := by
  unfold Step.nextGuarded
  split
  · exact pushStatement (runs isNode) (by exact stays) _
  · exact runFinal isNode (by exact stays)

omit isNode in
/-- The poll of the next boolean clause. -/
theorem poll
    {otherwise : Frame → Step Move}
    (goesOn : ∀ frame : Frame,
      frame.Stays origin → Obeys setting origin held (otherwise frame)) :
    Obeys setting origin held (Step.poll frame clauses otherwise) := by
  unfold Step.poll
  split
  · exact pushExpression (by exact stays) _ _
  · exact goesOn _ (by exact stays)

/-- What follows a statement of the body. -/
theorem bodyEnded :
    Obeys setting origin held (Step.bodyEnded frame body clauses final incoming) := by
  unfold Step.bodyEnded
  split
  · exact nextGuarded isNode stays
  · exact matchClause isNode (by exact stays)
  · split
    · exact runFinal isNode (by exact stays)
    · split
      · exact poll (by exact stays) fun _ stays => nextGuarded isNode stays
      · exact nextGuarded isNode stays

/-- What follows the test of a clause. -/
theorem matchEnded :
    Obeys setting origin held (Step.matchEnded frame clauses final incoming) := by
  unfold Step.matchEnded
  split
  · exact runFinal isNode (by exact stays)
  · refine bind (.require _ _) fun clause _ => bind (.valueOf (handsOn isNode)) fun tested _ => ?_
    refine bind (.catches clause tested) fun caught _ => ?_
    split
    · exact runHandler isNode (by exact stays)
    · exact matchClause isNode (by exact stays)

/-- What follows the poll of a boolean clause. -/
theorem pollEnded :
    Obeys setting origin held (Step.pollEnded frame body clauses final incoming) := by
  unfold Step.pollEnded
  split
  · exact matchClause isNode (by exact stays)
  · refine bind (.conditionOf (handsOn isNode)) fun holds _ => ?_
    split
    · exact runHandler isNode (by exact stays)
    · exact poll (by exact stays) fun _ stays => nextGuarded isNode stays

/-- A try statement. -/
theorem guarded :
    Obeys setting origin held (Step.guarded frame body clauses final incoming) := by
  unfold Step.guarded
  split
  · exact bodyEnded isNode stays
  · exact poll stays fun _ stays => bodyEnded isNode stays
  · exact pollEnded isNode stays
  · exact matchClause isNode stays
  · exact matchEnded isNode stays
  · exact runHandler isNode stays
  · exact runFinal isNode (by exact stays)
  · exact runFinal isNode stays
  · exact ends isNode _

end Guarded

/-- The statement under the cursor. -/
theorem nextStatement
    (stays : frame.Stays origin)
    (statements : List StmtId) :
    Obeys setting origin held (Step.nextStatement frame statements) := by
  unfold Step.nextStatement
  split
  · exact pushStatement (runs isNode) (by exact stays) _
  · exact done isNode

/-- The declaration of a variable. -/
theorem declare
    (tree : Tree)
    (slot : LocalSlot)
    (limits : Limits)
    (initial : Option ExprId)
    (stays : frame.Stays origin) :
    Obeys setting origin held (Step.declare tree frame slot limits initial incoming) := by
  unfold Step.declare
  refine bind (.activationOf frame) fun activation outline => ?_
  refine bind (.require _ _) fun former _ => bind .heap fun heap _ => ?_
  have place (cell : CellId) :
      Obeys setting origin held (do
        modify fun memory =>
          { memory with
            activations := memory.activations.setIfInBounds frame.act.toNat
              { activation with locals := activation.locals.setIfInBounds slot.index cell } }
        Step.done) :=
    bind (.setActivation (by simpa [Activation.outline] using outline)) fun _ _ => done isNode
  split
  · exact pushExpression (by exact stays) _ _
  · exact bind (.allocate _) fun cell _ => place cell
  · refine bind (.valueOf (handsOn isNode)) fun value _ => bind (.require _ _) fun initial _ => ?_
    refine bind (.allocate _) fun cell _ => bind (.typeOf tree initial) fun source _ => ?_
    exact bind (.storeDeclared cell value source limits) fun _ _ => place cell

/-! ### Loops -/

/-- The test of a counting loop that has been evaluated. -/
theorem forTested
    (body : StmtId)
    (stays : frame.Stays origin) :
    Obeys setting origin held (Step.forTested frame body incoming) := by
  have started (goOn : Bool) :
      Obeys setting origin held
        (if goOn then Pure.pure (Step.pushStatement { frame with state := 4 } body)
        else Step.done) := by
    split
    · exact pushStatement (runs isNode) (by exact stays) _
    · exact done isNode
  unfold Step.forTested
  split
  · exact bind (.conditionOf (handsOn isNode)) fun goOn _ => started goOn
  · exact started true

/-- The test of a counting loop. -/
theorem forTest
    (condition : Option ExprId)
    (body : StmtId)
    (stays : frame.Stays origin) :
    Obeys setting origin held (Step.forTest frame condition body incoming) := by
  unfold Step.forTest
  split
  · exact pushExpression (by exact stays) _ _
  · exact forTested isNode body (by exact stays)

/-- The expressions that a counting loop evaluates after its body. -/
theorem forSteps
    (steps : List ExprId)
    (stays : frame.Stays origin) :
    Obeys setting origin held (Step.forSteps frame steps) := by
  unfold Step.forSteps
  split
  · exact pushExpression (by exact stays) _ _
  · exact tick ⟨id, isNode⟩ (by exact stays)

/-- A counting loop. -/
theorem forLoop
    (label : Option String)
    (initial : List StmtId)
    (condition : Option ExprId)
    (steps : List ExprId)
    (body : StmtId)
    (stays : frame.Stays origin) :
    Obeys setting origin held
      (Step.forLoop frame label initial condition steps body incoming) := by
  unfold Step.forLoop
  split
  · refine bind (.settle (handsOn isNode)) fun _ _ => ?_
    split
    · exact pushStatement (runs isNode) (by exact stays) _
    · exact forTest isNode condition body stays
  · exact forTest isNode condition body stays
  · exact forTested isNode body stays
  · refine bind (.goesOn (handsOn isNode)) fun goesOn _ => ?_
    split
    · exact forSteps isNode steps (by exact stays)
    · exact done isNode
  · dsimp only
    split
    · exact bind (.valueOf (handsOn isNode)) fun _ _ => forSteps isNode steps stays
    · exact forSteps isNode steps stays

/-- The next round of a loop with a number of rounds. -/
theorem nextRound
    (body : StmtId)
    (stays : frame.Stays origin) :
    Obeys setting origin held (Step.nextRound frame body) := by
  unfold Step.nextRound
  dsimp only
  split
  · exact done isNode
  · exact pushStatement (runs isNode) (by exact stays) _

/-- A loop with a number of rounds. -/
theorem repeatLoop
    (label : Option String)
    (count : ExprId)
    (body : StmtId)
    (stays : frame.Stays origin) :
    Obeys setting origin held (Step.repeatLoop frame label count body incoming) := by
  unfold Step.repeatLoop
  split
  · exact pushExpression (by exact stays) _ _
  · refine bind (.valueOf (handsOn isNode)) fun value _ => ?_
    split
    · exact raise _
    · exact bind (.require _ _) fun rounds _ => nextRound isNode body (by exact stays)
  · exact nextRound isNode body stays
  · refine bind (.goesOn (handsOn isNode)) fun goesOn _ => ?_
    split
    · exact tick ⟨id, isNode⟩ (by exact stays)
    · exact done isNode

/-- A switch. -/
theorem switchOn
    (value : ExprId)
    (cases : List SwitchCase)
    (body : List StmtId)
    (stays : frame.Stays origin) :
    Obeys setting origin held (Step.switchOn frame value cases body incoming) := by
  unfold Step.switchOn
  split
  · exact pushExpression (by exact stays) _ _
  · refine bind (.valueOf (handsOn isNode)) fun tested _ => ?_
    refine bind (.require _ _) fun selected _ => ?_
    dsimp only
    split
    · exact nextStatement isNode (by exact stays) body
    · exact done isNode
  · split
    · exact done isNode
    · exact bind (.settle (handsOn isNode)) fun _ _ => nextStatement isNode stays body

/-- A thrown exception. -/
theorem thrown
    (value : Value)
    (span : Span) :
    Obeys setting origin held (Step.thrown value span) := by
  refine bind (.require _ _) fun code _ => ?_
  split
  · exact ends isNode _
  · exact raise _

/-- A statement that has been entered. -/
theorem entered
    (node : Stmt)
    (stays : frame.Stays origin) :
    Obeys setting origin held (Step.entered setting frame node incoming) := by
  unfold Step.entered
  dsimp only
  split
  · split
    · exact pushExpression (by exact stays) _ _
    · exact bind (.valueOf (handsOn isNode)) fun _ _ => done isNode
  · exact declare isNode _ _ _ _ stays
  · exact bind (.settle (handsOn isNode)) fun _ _ => nextStatement isNode stays _
  · next whenFalse _ =>
    split
    · exact pushExpression (by exact stays) _ _
    · refine bind (.conditionOf (handsOn isNode)) fun holds _ => ?_
      cases holds with
      | true => exact pushStatement (runs isNode) (by exact stays) _
      | false =>
          cases whenFalse with
          | some branch => exact pushStatement (runs isNode) (by exact stays) _
          | none => exact done isNode
    · exact bind (.settle (handsOn isNode)) fun _ _ => done isNode
  · split
    · exact pushExpression (by exact stays) _ _
    · refine bind (.conditionOf (handsOn isNode)) fun holds _ => ?_
      split
      · exact pushStatement (runs isNode) (by exact stays) _
      · exact done isNode
    · refine bind (.goesOn (handsOn isNode)) fun goesOn _ => ?_
      split
      · exact tick ⟨id, isNode⟩ (by exact stays)
      · exact done isNode
  · split
    · exact pushStatement (runs isNode) (by exact stays) _
    · refine bind (.goesOn (handsOn isNode)) fun goesOn _ => ?_
      split
      · exact tick ⟨id, isNode⟩ (by exact stays)
      · exact done isNode
    · exact pushExpression (by exact stays) _ _
    · refine bind (.conditionOf (handsOn isNode)) fun holds _ => ?_
      split
      · exact pushStatement (runs isNode) (by exact stays) _
      · exact done isNode
  · exact forLoop isNode _ _ _ _ _ stays
  · exact repeatLoop isNode _ _ _ stays
  · exact switchOn isNode _ _ _ stays
  · exact ends isNode _
  · exact ends isNode _
  · exact ends isNode _
  · split
    · exact pushExpression (by exact stays) _ _
    · refine bind (.valueOf (handsOn isNode)) fun result _ => ?_
      refine bind (.activationOf frame) fun activation _ => bind (.require _ _) fun id _ => ?_
      refine bind (.part _) fun function _ => bind (.typeOf _ _) fun source _ => ?_
      exact bind (.convert _ _ _) fun result _ => ends isNode _
  · split
    · exact pushExpression (by exact stays) _ _
    · exact bind (.valueOf (handsOn isNode)) fun value _ => thrown isNode value _
  · exact guarded isNode stays

/-- A statement. -/
theorem statement
    (stays : frame.Stays origin) :
    Obeys setting origin held (Step.statement setting frame id incoming) := by
  unfold Step.statement
  split
  · exact tick ⟨id, isNode⟩ (by exact stays)
  · exact bind (.part _) fun node _ => entered isNode node stays

end Statements

end Obeys

end Step

end BotScript
