import BotScript.Proofs.Soundness

namespace BotScript

/-!
# Statements over sound memories

The step of a statement keeps a memory sound, and its move fits: it pushes only
the parts of the statement, and goes to no step behind the last one.
-/

open Restored (Bounds)

namespace Frame.Stands

variable {floor later : Bounds} {frame origin : Frame}
  (stands : frame.Stands floor origin)

include stands

/-- A frame stands while the heap grows. -/
theorem mono
    (grown : floor ≤ later) :
    frame.Stands later origin :=
  ⟨stands.1, stands.2.1, stands.2.2.mono grown⟩

/-- The operands of a frame exist. -/
theorem operands :
    ∀ value ∈ frame.values, floor.Cover value.refs := by
  have covered := stands.2.2
  simp only [Frame.refs, Bounds.cover_append, Bounds.cover_flatMap] at covered
  exact covered.1.1

/-- What the completion held back refers to exists. -/
theorem held :
    floor.Cover (frame.pending.getD .normal).refs := by
  have covered := stands.2.2
  simp only [Frame.refs, Bounds.cover_append, Bounds.cover_flatMap] at covered
  cases found : frame.pending with
  | none => exact Bounds.cover_nil
  | some completion => exact covered.2 completion (by simp [found])

/-- A frame with other operands that exist. -/
theorem withValues
    {values : List Value}
    (covered : ∀ value ∈ values, floor.Cover value.refs) :
    Frame.Stands floor { frame with values } origin := by
  refine ⟨stands.1, stands.2.1, ?_⟩
  have old := stands.2.2
  simp only [Frame.refs, Bounds.cover_append, Bounds.cover_flatMap] at old ⊢
  exact ⟨⟨covered, old.1.2⟩, old.2⟩

/-- A frame with another target that exists. -/
theorem withTarget
    {cell : CellId}
    (within : cell.index < floor.cells) :
    Frame.Stands floor { frame with place := some cell } origin := by
  refine ⟨stands.1, stands.2.1, ?_⟩
  have old := stands.2.2
  simp only [Frame.refs, Bounds.cover_append, Bounds.cover_flatMap] at old ⊢
  exact ⟨⟨old.1.1, by simpa using within⟩, old.2⟩

/-- A frame that holds back another completion. -/
theorem withPending
    {pending : Option Completion}
    (covered : floor.Cover (pending.toList.flatMap Completion.refs)) :
    Frame.Stands floor { frame with pending } origin := by
  refine ⟨stands.1, stands.2.1, ?_⟩
  have old := stands.2.2
  simp only [Frame.refs, Bounds.cover_append] at old ⊢
  exact ⟨old.1, covered⟩

end Frame.Stands

namespace Step.Plays

variable {tree : Tree} {floor : Bounds} {origin frame : Frame} {last : UInt32}
  {incoming : Option Completion}

/-- The end of a statement. -/
theorem done :
    Plays tree floor origin Step.done :=
  complete Bounds.cover_nil

section Guarded

variable {body : List StmtId} {clauses : List CatchClause} {final : Option StmtId}
  (known : origin.node.lastState? tree = some 9)

include known

/-- The final block of a try statement. -/
theorem runFinal
    (stands : frame.Stands floor origin) :
    Plays tree floor origin (Step.runFinal frame final) := by
  cases final with
  | some final =>
      exact pushStatement known (by exact stands) (UInt32.le_refl 9) _
  | none => exact complete stands.held

/-- The final block behind a completion that is held back. -/
theorem endWith
    (stands : frame.Stands floor origin)
    {completion : Completion}
    (covered : floor.Cover completion.refs) :
    Plays tree floor origin (Step.endWith frame final completion) :=
  runFinal known (by exact stands.withPending (by simpa using covered))

/-- The handler of the chosen clause. -/
theorem runHandler
    (stands : frame.Stands floor origin) :
    Plays tree floor origin (Step.runHandler frame clauses) := by
  refine bind (Keeps.require .notRunning clauses[frame.aux.toNat]?) ?_
  rintro _ clause - ⟨rfl, -⟩
  exact pushStatement known (by exact stands) (by decide : (7 : UInt32) ≤ 9) _

/-- The test of the clause under the second cursor. -/
theorem matchClause
    (stands : frame.Stands floor origin) :
    Plays tree floor origin (Step.matchClause frame clauses final) := by
  unfold Step.matchClause
  split
  · exact pushExpression known (by exact stands) (by decide : (5 : UInt32) ≤ 9) _ _
  · exact runFinal known (by exact stands)

/-- The first test of an exception. -/
theorem matchFirst
    (stands : frame.Stands floor origin)
    (error : RuntimeError) :
    Plays tree floor origin (Step.matchFirst frame clauses final error) :=
  matchClause known (by exact stands.withPending (by simp [Completion.refs]))

/-- The next statement of the body. -/
theorem nextGuarded
    (stands : frame.Stands floor origin) :
    Plays tree floor origin (Step.nextGuarded frame body final) := by
  unfold Step.nextGuarded
  split
  · exact pushStatement known (by exact stands) (by decide : (1 : UInt32) ≤ 9) _
  · exact endWith known stands Bounds.cover_nil

/-- The poll of the next boolean clause. -/
theorem poll
    (stands : frame.Stands floor origin)
    {otherwise : Frame → Step Move}
    (goesOn : ∀ frame : Frame,
      frame.Stands floor origin → Plays tree floor origin (otherwise frame)) :
    Plays tree floor origin (Step.poll frame clauses otherwise) := by
  unfold Step.poll
  split
  · exact pushExpression known (by exact stands) (by decide : (3 : UInt32) ≤ 9) _ _
  · exact goesOn { frame with state := 1 } stands

/-- What follows a statement of the body. -/
theorem bodyEnded
    (stands : frame.Stands floor origin)
    (covered : floor.Cover (incoming.toList.flatMap Completion.refs)) :
    Plays tree floor origin (Step.bodyEnded frame body clauses final incoming) := by
  have goOn :
      Plays tree floor origin
        (if clauses.any fun clause => clause.kind == .condition then
          Step.poll { frame with aux := 0 } clauses fun frame => Step.nextGuarded frame body final
        else Step.nextGuarded frame body final) := by
    split
    · exact poll known (by exact stands)
        fun frame stands => nextGuarded known stands
    · exact nextGuarded known stands
  match incoming with
  | none => exact nextGuarded known stands
  | some (.thrown error) => exact matchFirst known stands error
  | some .normal => exact goOn
  | some (.value value) => exact goOn
  | some (.place cell) => exact goOn
  | some (.breakTo label) => exact endWith known stands (by simpa using covered)
  | some (.continueTo label) => exact endWith known stands (by simpa using covered)
  | some (.returned value) => exact endWith known stands (by simpa using covered)

/-- What follows the test of a clause. -/
theorem matchEnded
    (stands : frame.Stands floor origin)
    (covered : floor.Cover (incoming.toList.flatMap Completion.refs)) :
    Plays tree floor origin (Step.matchEnded frame clauses final incoming) := by
  have tested :
      Plays tree floor origin
        (do
          let clause ← Step.require .notRunning clauses[frame.aux.toNat]?
          let tested ← Step.valueOf incoming
          if ← Step.catches frame clause tested then
            Step.runHandler { frame with pending := none } clauses
          else Step.matchClause { frame with aux := frame.aux + 1 } clauses final) := by
    refine bind (Keeps.require _ _) ?_
    rintro _ clause - ⟨rfl, -⟩
    refine bind (Keeps.valueOf covered) ?_
    rintro _ value - ⟨rfl, -⟩
    refine bind (Keeps.catches clause value) ?_
    rintro _ caught - ⟨rfl, -⟩
    split
    · exact runHandler known (by exact stands.withPending Bounds.cover_nil)
    · exact matchClause known (by exact stands)
  match incoming with
  | some (.thrown error) => exact endWith known stands Bounds.cover_nil
  | none => exact tested
  | some .normal => exact tested
  | some (.value value) => exact tested
  | some (.place cell) => exact tested
  | some (.breakTo label) => exact tested
  | some (.continueTo label) => exact tested
  | some (.returned value) => exact tested

/-- What follows the poll of a boolean clause. -/
theorem pollEnded
    (stands : frame.Stands floor origin)
    (covered : floor.Cover (incoming.toList.flatMap Completion.refs)) :
    Plays tree floor origin (Step.pollEnded frame body clauses final incoming) := by
  have polled :
      Plays tree floor origin
        (do
          if ← Step.conditionOf incoming then
            Step.runHandler { frame with pending := none } clauses
          else
            Step.poll { frame with aux := frame.aux + 1 } clauses fun frame =>
              Step.nextGuarded frame body final) := by
    refine bind (Keeps.conditionOf covered) ?_
    rintro _ holds - ⟨rfl, -⟩
    split
    · exact runHandler known (by exact stands.withPending Bounds.cover_nil)
    · exact poll known (by exact stands)
        fun frame stands => nextGuarded known stands
  match incoming with
  | some (.thrown error) => exact matchFirst known stands error
  | none => exact polled
  | some .normal => exact polled
  | some (.value value) => exact polled
  | some (.place cell) => exact polled
  | some (.breakTo label) => exact polled
  | some (.continueTo label) => exact polled
  | some (.returned value) => exact polled

omit known in
/-- A completion or the one that takes its place refers to what exists. -/
theorem cover_abruptOr
    (covered : floor.Cover (incoming.toList.flatMap Completion.refs))
    {other : Completion}
    (otherCovered : floor.Cover other.refs) :
    floor.Cover (Step.abruptOr incoming other).refs := by
  cases incoming with
  | none => exact otherCovered
  | some completion =>
      unfold Step.abruptOr
      dsimp only
      split
      · simpa using covered
      · exact otherCovered

/-- A try statement. -/
theorem guarded
    (stands : frame.Stands floor origin)
    (covered : floor.Cover (incoming.toList.flatMap Completion.refs)) :
    Plays tree floor origin (Step.guarded frame body clauses final incoming) := by
  unfold Step.guarded
  split
  · exact bodyEnded known stands covered
  · exact poll known stands fun frame stands => bodyEnded known stands covered
  · exact pollEnded known stands covered
  · exact matchClause known stands
  · exact matchEnded known stands covered
  · exact runHandler known stands
  · exact endWith known stands (cover_abruptOr covered Bounds.cover_nil)
  · exact runFinal known stands
  · exact complete (cover_abruptOr covered stands.held)

end Guarded

/-- The statement under the cursor. -/
theorem nextStatement
    (known : origin.node.lastState? tree = some last)
    (stands : frame.Stands floor origin)
    (state : frame.state ≤ last)
    (body : List StmtId) :
    Plays tree floor origin (Step.nextStatement frame body) := by
  unfold Step.nextStatement
  split
  · exact pushStatement known (by exact stands) (by exact state) _
  · exact done

/-- The declaration of a variable. -/
theorem declare
    {slot : LocalSlot}
    {limits : Limits}
    {initial : Option ExprId}
    (known : origin.node.lastState? tree = some 2)
    (stands : frame.Stands floor origin)
    (covered : floor.Cover (incoming.toList.flatMap Completion.refs)) :
    Plays tree floor origin (Step.declare tree frame slot limits initial incoming) := by
  unfold Step.declare
  refine bind (Keeps.activationOf frame) ?_
  rintro _ activation - ⟨rfl, activationSound⟩
  refine bind (Keeps.require _ _) ?_
  rintro _ former - ⟨rfl, -⟩
  refine bind Keeps.heap ?_
  rintro _ heap - ⟨rfl, -, -⟩
  have place
      {later : Bounds}
      (grown : floor ≤ later)
      {cell : CellId}
      (within : cell.index < later.cells) :
      Plays tree later origin
        (do
          modify fun memory =>
            { memory with
              activations := memory.activations.setIfInBounds frame.act.toNat
                { activation with locals := activation.locals.setIfInBounds slot.index cell } }
          Step.done) := by
    refine bind (Keeps.setActivation frame.act.toNat ?_) fun _ _ _ _ => done
    have old := activationSound.mono grown
    refine ⟨?_, fun id found => ?_⟩
    · have refs := old.refs
      simp only [Activation.refs, Bounds.cover_append, Bounds.cover_cells,
        Array.mem_toList_iff] at refs ⊢
      exact ⟨refs.1, Array.forall_mem_set refs.2 within⟩
    · simpa using old.locals id found
  split
  · exact pushExpression known (by exact stands) (UInt32.le_refl 2) _ _
  · refine bind (Keeps.addFresh _ limits) ?_
    intro later cell grown within
    exact place grown within
  · refine bind (Keeps.valueOf covered) ?_
    rintro _ value - ⟨rfl, valueCovered⟩
    refine bind (Keeps.require _ _) ?_
    rintro _ initial - ⟨rfl, -⟩
    refine bind (Keeps.addCell (by simp)) ?_
    intro later cell grown within
    refine bind (Keeps.typeOf initial) ?_
    rintro _ source - ⟨rfl, -⟩
    refine bind (Keeps.storeDeclared (valueCovered.mono grown) source limits) ?_
    intro last _ stored _
    exact place (le_trans grown stored) (Nat.lt_of_lt_of_le within stored.cells)

/-! ## Loops -/

/-- A counted round of a loop. -/
theorem nextTurn
    (isStatement : ∃ id, origin.node = .statement id)
    (known : origin.node.lastState? tree = some last)
    (stands : frame.Stands floor origin)
    (state : frame.state ≤ last) :
    Plays tree floor origin (Pure.pure (.tick frame)) :=
  tick isStatement stands (withinStates known stands state)

section For

variable {label : Option String} {initial : List StmtId} {condition : Option ExprId}
  {steps : List ExprId} {body : StmtId}

/-- The test of a counting loop that has been evaluated. -/
theorem forTested
    (known : origin.node.lastState? tree = some 5)
    (stands : frame.Stands floor origin)
    (covered : floor.Cover (incoming.toList.flatMap Completion.refs)) :
    Plays tree floor origin (Step.forTested frame body incoming) := by
  have started (goOn : Bool) :
      Plays tree floor origin
        (if goOn then Pure.pure (Step.pushStatement { frame with state := 4 } body)
        else Step.done) := by
    split
    · exact pushStatement known (by exact stands) (by decide : (4 : UInt32) ≤ 5) _
    · exact done
  unfold Step.forTested
  dsimp only
  split
  · refine bind (Keeps.conditionOf covered) ?_
    rintro _ goOn - ⟨rfl, -⟩
    exact started goOn
  · exact started true

/-- The test of a counting loop. -/
theorem forTest
    (known : origin.node.lastState? tree = some 5)
    (stands : frame.Stands floor origin)
    (covered : floor.Cover (incoming.toList.flatMap Completion.refs)) :
    Plays tree floor origin (Step.forTest frame condition body incoming) := by
  cases condition with
  | some condition =>
      exact pushExpression known (by exact stands) (by decide : (3 : UInt32) ≤ 5) _ _
  | none => exact forTested known (by exact stands) covered

/-- The expressions behind the body of a counting loop. -/
theorem forSteps
    (isStatement : ∃ id, origin.node = .statement id)
    (known : origin.node.lastState? tree = some 5)
    (stands : frame.Stands floor origin)
    (state : frame.state ≤ 5) :
    Plays tree floor origin (Step.forSteps frame steps) := by
  unfold Step.forSteps
  split
  · exact pushExpression known (by exact stands) (by exact state) _ _
  · exact nextTurn isStatement known (by exact stands) (by decide : (2 : UInt32) ≤ 5)

/-- A counting loop. -/
theorem forLoop
    (isStatement : ∃ id, origin.node = .statement id)
    (known : origin.node.lastState? tree = some 5)
    (stands : frame.Stands floor origin)
    (state : frame.state ≤ 5)
    (covered : floor.Cover (incoming.toList.flatMap Completion.refs)) :
    Plays tree floor origin
      (Step.forLoop frame label initial condition steps body incoming) := by
  unfold Step.forLoop
  split
  · refine bind (Keeps.settle covered) ?_
    rintro _ _ - ⟨rfl, -⟩
    split
    · exact pushStatement known (by exact stands) (by exact state) _
    · exact forTest known stands Bounds.cover_nil
  · exact forTest known stands covered
  · exact forTested known stands covered
  · refine bind (Keeps.goesOn covered) ?_
    rintro _ goesOn - ⟨rfl, -⟩
    split
    · exact forSteps isStatement known (by exact stands) (UInt32.le_refl 5)
    · exact done
  · split
    · refine bind (Keeps.valueOf covered) ?_
      rintro _ value - ⟨rfl, -⟩
      exact forSteps isStatement known stands state
    · exact forSteps isStatement known stands state

end For

section Repeat

variable {label : Option String} {count : ExprId} {body : StmtId}

/-- The next round of a loop with a number of rounds. -/
theorem nextRound
    (known : origin.node.lastState? tree = some 4)
    (stands : frame.Stands floor origin) :
    Plays tree floor origin (Step.nextRound frame body) := by
  unfold Step.nextRound
  dsimp only
  split
  · exact done
  · exact pushStatement known (by exact stands.withValues (by simp [Value.refs]))
      (by exact UInt32.le_refl 4) _

/-- A loop with a number of rounds. -/
theorem repeatLoop
    (isStatement : ∃ id, origin.node = .statement id)
    (known : origin.node.lastState? tree = some 4)
    (stands : frame.Stands floor origin)
    (covered : floor.Cover (incoming.toList.flatMap Completion.refs)) :
    Plays tree floor origin (Step.repeatLoop frame label count body incoming) := by
  unfold Step.repeatLoop
  split
  · exact pushExpression known (by exact stands) (by decide : (2 : UInt32) ≤ 4) _ _
  · refine bind (Keeps.valueOf covered) ?_
    rintro _ value - ⟨rfl, -⟩
    split
    · exact raise _
    · refine bind (Keeps.require _ _) ?_
      rintro _ rounds - ⟨rfl, -⟩
      exact nextRound known (by exact stands.withValues (by simp [Value.refs]))
  · exact nextRound known stands
  · refine bind (Keeps.goesOn covered) ?_
    rintro _ goesOn - ⟨rfl, -⟩
    split
    · exact nextTurn isStatement known (by exact stands) (by decide : (3 : UInt32) ≤ 4)
    · exact done

end Repeat

/-! ## Other statements -/

/-- A switch. -/
theorem switchOn
    {value : ExprId}
    {cases : List SwitchCase}
    {body : List StmtId}
    (known : origin.node.lastState? tree = some 3)
    (stands : frame.Stands floor origin)
    (state : frame.state ≤ 3)
    (covered : floor.Cover (incoming.toList.flatMap Completion.refs)) :
    Plays tree floor origin (Step.switchOn frame value cases body incoming) := by
  unfold Step.switchOn
  split
  · exact pushExpression known (by exact stands) (by decide : (2 : UInt32) ≤ 3) _ _
  · refine bind (Keeps.valueOf covered) ?_
    rintro _ selected - ⟨rfl, -⟩
    refine bind (Keeps.require _ _) ?_
    rintro _ number - ⟨rfl, -⟩
    dsimp only
    split
    · exact nextStatement known (by exact stands) (UInt32.le_refl 3) _
    · exact done
  · split
    · exact done
    · refine bind (Keeps.settle covered) ?_
      rintro _ _ - ⟨rfl, -⟩
      exact nextStatement known stands state _

/-- A thrown exception. -/
theorem thrown
    (value : Value)
    (span : Span) :
    Plays tree floor origin (Step.thrown value span) := by
  refine bind (Keeps.require _ _) ?_
  rintro _ code - ⟨rfl, -⟩
  split
  · exact complete Bounds.cover_nil
  · exact raise _

/-- Every statement has a step behind the one that counts it. -/
theorem one_le_lastState
    (kind : StmtKind) :
    1 ≤ kind.lastState := by
  cases kind <;> simp only [StmtKind.lastState] <;> decide

/-- The last step of a statement of the tree. -/
theorem lastState_statement
    {id : StmtId}
    {node : Stmt}
    (isNode : origin.node = .statement id)
    (found : tree.stmt? id = some node) :
    origin.node.lastState? tree = some node.kind.lastState := by
  simp [isNode, Node.lastState?, found]

/-- A statement that has been entered. -/
theorem entered
    {setting : Setting}
    {id : StmtId}
    {node : Stmt}
    (isNode : origin.node = .statement id)
    (found : setting.tree.stmt? id = some node)
    (stands : frame.Stands floor origin)
    (state : frame.state ≤ node.kind.lastState)
    (covered : floor.Cover (incoming.toList.flatMap Completion.refs)) :
    Plays setting.tree floor origin (Step.entered setting frame node incoming) := by
  have isStatement : ∃ id, origin.node = .statement id := ⟨id, isNode⟩
  have known := lastState_statement isNode found
  obtain ⟨kind, span⟩ := node
  unfold Step.entered
  cases kind with
  | expression value =>
      dsimp only
      split
      · exact pushExpression known (by exact stands) (UInt32.le_refl 2) _ _
      · refine bind (Keeps.valueOf covered) ?_
        rintro _ value - ⟨rfl, -⟩
        exact done
  | declare slot limits initial => exact declare known stands covered
  | block statements =>
      refine bind (Keeps.settle covered) ?_
      rintro _ _ - ⟨rfl, -⟩
      exact nextStatement known stands state _
  | branch condition whenTrue whenFalse =>
      dsimp only
      split
      · exact pushExpression known (by exact stands) (by decide : (2 : UInt32) ≤ 3) _ _
      · refine bind (Keeps.conditionOf covered) ?_
        rintro _ holds - ⟨rfl, -⟩
        cases holds with
        | true =>
            exact pushStatement known (by exact stands) (UInt32.le_refl 3) _
        | false =>
            cases whenFalse with
            | some branch =>
                exact pushStatement known (by exact stands) (UInt32.le_refl 3) _
            | none => exact done
      · refine bind (Keeps.settle covered) ?_
        rintro _ _ - ⟨rfl, -⟩
        exact done
  | whileLoop label condition body =>
      dsimp only
      split
      · exact pushExpression known (by exact stands) (by decide : (2 : UInt32) ≤ 3) _ _
      · refine bind (Keeps.conditionOf covered) ?_
        rintro _ holds - ⟨rfl, -⟩
        split
        · exact pushStatement known (by exact stands) (UInt32.le_refl 3) _
        · exact done
      · refine bind (Keeps.goesOn covered) ?_
        rintro _ goesOn - ⟨rfl, -⟩
        split
        · exact nextTurn isStatement known (by exact stands) (by decide : (1 : UInt32) ≤ 3)
        · exact done
  | doLoop label body condition =>
      dsimp only
      split
      · exact pushStatement known (by exact stands) (by decide : (2 : UInt32) ≤ 4) _
      · refine bind (Keeps.goesOn covered) ?_
        rintro _ goesOn - ⟨rfl, -⟩
        split
        · exact nextTurn isStatement known (by exact stands) (by decide : (3 : UInt32) ≤ 4)
        · exact done
      · exact pushExpression known (by exact stands) (UInt32.le_refl 4) _ _
      · refine bind (Keeps.conditionOf covered) ?_
        rintro _ holds - ⟨rfl, -⟩
        split
        · exact pushStatement known (by exact stands) (by decide : (2 : UInt32) ≤ 4) _
        · exact done
  | forLoop label initial condition steps body =>
      exact forLoop isStatement known stands state covered
  | repeatLoop label count body => exact repeatLoop isStatement known stands covered
  | switchOn value cases body => exact switchOn known stands state covered
  | breakTo label => exact complete Bounds.cover_nil
  | continueTo label => exact complete Bounds.cover_nil
  | returnWith value =>
      cases value with
      | none => exact complete Bounds.cover_nil
      | some value =>
          dsimp only
          split
          · exact pushExpression known (by exact stands) (UInt32.le_refl 2) _ _
          · refine bind (Keeps.valueOf covered) ?_
            rintro _ result - ⟨rfl, resultCovered⟩
            refine bind (Keeps.activationOf frame) ?_
            rintro _ activation - ⟨rfl, -⟩
            refine bind (Keeps.require _ _) ?_
            rintro _ id - ⟨rfl, -⟩
            refine bind (Keeps.part _) ?_
            rintro _ function - ⟨rfl, -⟩
            refine bind (Keeps.typeOf value) ?_
            rintro _ source - ⟨rfl, -⟩
            refine bind (Keeps.convert resultCovered source function.result) ?_
            rintro _ converted - ⟨rfl, convertedCovered⟩
            exact complete convertedCovered
  | throwCode value =>
      dsimp only
      split
      · exact pushExpression known (by exact stands) (UInt32.le_refl 2) _ _
      · refine bind (Keeps.valueOf covered) ?_
        rintro _ code - ⟨rfl, -⟩
        exact thrown code span
  | guarded body clauses final => exact guarded known stands covered

/-- A statement. -/
theorem statement
    {setting : Setting}
    {id : StmtId}
    (isNode : origin.node = .statement id)
    (stands : frame.Stands floor origin)
    (within : frame.WithinStates setting.tree)
    (covered : floor.Cover (incoming.toList.flatMap Completion.refs)) :
    Plays setting.tree floor origin (Step.statement setting frame id incoming) := by
  unfold Step.statement
  split
  · refine tick ⟨id, isNode⟩ (by exact stands) ?_
    intro last found
    simp only [stands.1, isNode, Node.lastState?, Option.map_eq_some_iff] at found
    obtain ⟨node, -, rfl⟩ := found
    exact one_le_lastState node.kind
  · refine bind (Keeps.part _) ?_
    rintro _ node - ⟨rfl, found⟩
    have state : frame.state ≤ node.kind.lastState :=
      within _ (by simp [stands.1, isNode, Node.lastState?, found])
    exact entered isNode found stands state covered

end Step.Plays

end BotScript
