import BotScript.Host.Standard
import BotScript.Proofs.Lockstep

namespace BotScript

/-!
# Statements in lockstep

The step of a statement over an outer memory follows the step over the inner
one, whichever position of the statement comes next.
-/

namespace Step.Follows

variable {embedding : Embedding} {frame : Frame}

/-- The end of a statement. -/
theorem done :
    Follows embedding embedding.Moves Step.done Step.done :=
  complete .normal

section Guarded

variable (visible : embedding.innerBelow.size ≤ frame.act.toNat)

include visible

/-- The final block of a try statement. -/
theorem runFinal
    (final : Option StmtId) :
    Follows embedding embedding.Moves (Step.runFinal frame final)
      (Step.runFinal (embedding.frame frame) final) := by
  cases final with
  | some final => exact pushStatement (by exact visible) final
  | none =>
      have held :
          (embedding.frame frame).pending.getD .normal =
            embedding.completion (frame.pending.getD .normal) := by
        rw [Relocation.frame_pending]
        cases frame.pending <;> rfl
      simp only [Step.runFinal, held]
      exact complete _

/-- The final block behind a completion that is held back. -/
theorem endWith
    (final : Option StmtId)
    (completion : Completion) :
    Follows embedding embedding.Moves (Step.endWith frame final completion)
      (Step.endWith (embedding.frame frame) final (embedding.completion completion)) :=
  runFinal (by exact visible) final

/-- The handler of the chosen clause. -/
theorem runHandler
    (clauses : List CatchClause) :
    Follows embedding embedding.Moves (Step.runHandler frame clauses)
      (Step.runHandler (embedding.frame frame) clauses) := by
  refine (require_same .notRunning clauses[frame.aux.toNat]?).bind ?_
  rintro clause _ rfl
  exact pushStatement (by exact visible) clause.body

/-- The test of the clause under the second cursor. -/
theorem matchClause
    (clauses : List CatchClause)
    (final : Option StmtId) :
    Follows embedding embedding.Moves (Step.matchClause frame clauses final)
      (Step.matchClause (embedding.frame frame) clauses final) := by
  unfold Step.matchClause
  rw [Relocation.frame_aux]
  split
  · exact pushExpression (by exact visible) _ _
  · exact runFinal (by exact visible) final

/-- The first test of an exception. -/
theorem matchFirst
    (clauses : List CatchClause)
    (final : Option StmtId)
    (error : RuntimeError) :
    Follows embedding embedding.Moves (Step.matchFirst frame clauses final error)
      (Step.matchFirst (embedding.frame frame) clauses final error) :=
  matchClause (by exact visible) clauses final

/-- The next statement of the body. -/
theorem nextGuarded
    (body : List StmtId)
    (final : Option StmtId) :
    Follows embedding embedding.Moves (Step.nextGuarded frame body final)
      (Step.nextGuarded (embedding.frame frame) body final) := by
  unfold Step.nextGuarded
  rw [Relocation.frame_cursor]
  split
  · exact pushStatement (by exact visible) _
  · exact endWith visible final .normal

/-- The poll of the next boolean clause. -/
theorem poll
    (clauses : List CatchClause)
    {inner outer : Frame → Step Move}
    (otherwise : ∀ frame : Frame,
      embedding.innerBelow.size ≤ frame.act.toNat →
      Follows embedding embedding.Moves (inner frame) (outer (embedding.frame frame))) :
    Follows embedding embedding.Moves (Step.poll frame clauses inner)
      (Step.poll (embedding.frame frame) clauses outer) := by
  unfold Step.poll
  rw [Relocation.frame_aux]
  split
  · next index clause _ =>
      exact pushExpression (by exact visible) _ _
  · exact otherwise { frame with state := 1 } visible

/-- What follows a statement of the body. -/
theorem bodyEnded
    (body : List StmtId)
    (clauses : List CatchClause)
    (final : Option StmtId)
    (incoming : Option Completion) :
    Follows embedding embedding.Moves (Step.bodyEnded frame body clauses final incoming)
      (Step.bodyEnded (embedding.frame frame) body clauses final
        (incoming.map embedding.completion)) := by
  have goOn :
      Follows embedding embedding.Moves
        (if clauses.any fun clause => clause.kind == .condition then
          Step.poll { frame with aux := 0 } clauses fun frame => Step.nextGuarded frame body final
        else Step.nextGuarded frame body final)
        (if clauses.any fun clause => clause.kind == .condition then
          Step.poll { embedding.frame frame with aux := 0 } clauses fun frame =>
            Step.nextGuarded frame body final
        else Step.nextGuarded (embedding.frame frame) body final) := by
    split
    · exact poll (by exact visible) clauses
        fun frame visible => nextGuarded visible body final
    · exact nextGuarded visible body final
  match incoming with
  | none => exact nextGuarded visible body final
  | some (.thrown error) => exact matchFirst visible clauses final error
  | some .normal => exact goOn
  | some (.value value) => exact goOn
  | some (.place cell) => exact goOn
  | some (.breakTo label) => exact endWith visible final (.breakTo label)
  | some (.continueTo label) => exact endWith visible final (.continueTo label)
  | some (.returned value) => exact endWith visible final (.returned value)

omit visible in
/-- Whether a clause catches the exception held back. -/
theorem catches
    (clause : CatchClause)
    (tested : Value) :
    Follows embedding Eq (Step.catches frame clause tested)
      (Step.catches (embedding.frame frame) clause (embedding.value tested)) := by
  unfold Step.catches
  split
  · exact truth tested
  · rw [Relocation.frame_pending, Relocation.value_int?]
    cases frame.pending with
    | none => exact pure rfl
    | some completion => cases completion <;> exact pure rfl

/-- What follows the test of a clause. -/
theorem matchEnded
    (clauses : List CatchClause)
    (final : Option StmtId)
    (incoming : Option Completion) :
    Follows embedding embedding.Moves (Step.matchEnded frame clauses final incoming)
      (Step.matchEnded (embedding.frame frame) clauses final
        (incoming.map embedding.completion)) := by
  have tested (incoming : Option Completion) :
      Follows embedding embedding.Moves
        (do
          let clause ← Step.require .notRunning clauses[frame.aux.toNat]?
          let tested ← Step.valueOf incoming
          if ← Step.catches frame clause tested then
            Step.runHandler { frame with pending := none } clauses
          else Step.matchClause { frame with aux := frame.aux + 1 } clauses final)
        (do
          let clause ← Step.require .notRunning clauses[(embedding.frame frame).aux.toNat]?
          let tested ← Step.valueOf (incoming.map embedding.completion)
          if ← Step.catches (embedding.frame frame) clause tested then
            Step.runHandler { embedding.frame frame with pending := none } clauses
          else
            Step.matchClause
              { embedding.frame frame with aux := (embedding.frame frame).aux + 1 }
              clauses final) := by
    refine (require_same _ _).bind ?_
    rintro clause _ rfl
    refine (valueOf incoming).bind ?_
    rintro value _ rfl
    refine (catches clause value).bind ?_
    rintro caught _ rfl
    split
    · exact runHandler (by exact visible) clauses
    · exact matchClause (by exact visible) clauses final
  match incoming with
  | none => exact tested none
  | some (.thrown error) => exact endWith visible final (.thrown error)
  | some .normal => exact tested (some .normal)
  | some (.value value) => exact tested (some (.value value))
  | some (.place cell) => exact tested (some (.place cell))
  | some (.breakTo label) => exact tested (some (.breakTo label))
  | some (.continueTo label) => exact tested (some (.continueTo label))
  | some (.returned value) => exact tested (some (.returned value))

/-- What follows the poll of a boolean clause. -/
theorem pollEnded
    (body : List StmtId)
    (clauses : List CatchClause)
    (final : Option StmtId)
    (incoming : Option Completion) :
    Follows embedding embedding.Moves (Step.pollEnded frame body clauses final incoming)
      (Step.pollEnded (embedding.frame frame) body clauses final
        (incoming.map embedding.completion)) := by
  have polled (incoming : Option Completion) :
      Follows embedding embedding.Moves
        (do
          if ← Step.conditionOf incoming then
            Step.runHandler { frame with pending := none } clauses
          else
            Step.poll { frame with aux := frame.aux + 1 } clauses fun frame =>
              Step.nextGuarded frame body final)
        (do
          if ← Step.conditionOf (incoming.map embedding.completion) then
            Step.runHandler { embedding.frame frame with pending := none } clauses
          else
            Step.poll { embedding.frame frame with aux := (embedding.frame frame).aux + 1 }
              clauses fun frame => Step.nextGuarded frame body final) := by
    refine (conditionOf incoming).bind ?_
    rintro holds _ rfl
    split
    · exact runHandler (by exact visible) clauses
    · exact poll (by exact visible) clauses
        fun frame visible => nextGuarded visible body final
  match incoming with
  | none => exact polled none
  | some (.thrown error) => exact matchFirst visible clauses final error
  | some .normal => exact polled (some .normal)
  | some (.value value) => exact polled (some (.value value))
  | some (.place cell) => exact polled (some (.place cell))
  | some (.breakTo label) => exact polled (some (.breakTo label))
  | some (.continueTo label) => exact polled (some (.continueTo label))
  | some (.returned value) => exact polled (some (.returned value))

omit visible in
/-- A completion if it is abrupt, and another one otherwise. -/
theorem abruptOr_map
    (incoming : Option Completion)
    (other : Completion) :
    Step.abruptOr (incoming.map embedding.completion) (embedding.completion other) =
      embedding.completion (Step.abruptOr incoming other) := by
  cases incoming with
  | none => rfl
  | some completion => cases completion <;> rfl

/-- A try statement. -/
theorem guarded
    (body : List StmtId)
    (clauses : List CatchClause)
    (final : Option StmtId)
    (incoming : Option Completion) :
    Follows embedding embedding.Moves (Step.guarded frame body clauses final incoming)
      (Step.guarded (embedding.frame frame) body clauses final
        (incoming.map embedding.completion)) := by
  unfold Step.guarded
  rw [Relocation.frame_state]
  split
  · exact bodyEnded visible body clauses final incoming
  · exact poll visible clauses
      fun frame visible => bodyEnded visible body clauses final incoming
  · exact pollEnded visible body clauses final incoming
  · exact matchClause visible clauses final
  · exact matchEnded visible clauses final incoming
  · exact runHandler visible clauses
  · rw [← show embedding.completion .normal = .normal from rfl, abruptOr_map]
    exact endWith visible final _
  · exact runFinal visible final
  · have held :
        (embedding.frame frame).pending.getD .normal =
          embedding.completion (frame.pending.getD .normal) := by
      rw [Relocation.frame_pending]
      cases frame.pending <;> rfl
    rw [held, abruptOr_map]
    exact complete _

end Guarded

/-- Whether a loop goes on after its body. -/
theorem goesOn
    (label : Option String)
    (incoming : Option Completion) :
    Follows embedding Eq (Step.goesOn label incoming)
      (Step.goesOn label (incoming.map embedding.completion)) := by
  match incoming with
  | none => exact pure rfl
  | some .normal => exact pure rfl
  | some (.value value) => exact pure rfl
  | some (.place cell) => exact pure rfl
  | some (.breakTo jump) =>
      simp only [Step.goesOn, Option.map_some, Relocation.completion_breakTo]
      split
      · exact pure rfl
      · exact throw (.propagate (.breakTo jump))
  | some (.continueTo jump) =>
      simp only [Step.goesOn, Option.map_some, Relocation.completion_continueTo]
      split
      · exact pure rfl
      · exact throw (.propagate (.continueTo jump))
  | some (.returned value) => exact throw (.propagate (.returned value))
  | some (.thrown error) => exact throw (.propagate (.thrown error))

/-- A counted step of a frame that is in sight. -/
theorem tick
    (visible : embedding.innerBelow.size ≤ frame.act.toNat) :
    Follows embedding embedding.Moves (Pure.pure (.tick frame))
      (Pure.pure (.tick (embedding.frame frame))) :=
  pure ⟨rfl, visible⟩

/-- The statement under the cursor. -/
theorem nextStatement
    (visible : embedding.innerBelow.size ≤ frame.act.toNat)
    (statements : List StmtId) :
    Follows embedding embedding.Moves (Step.nextStatement frame statements)
      (Step.nextStatement (embedding.frame frame) statements) := by
  unfold Step.nextStatement
  rw [Relocation.frame_cursor]
  split
  · exact pushStatement (by exact visible) _
  · exact done

/-- A replaced activation that is in sight. -/
theorem setActivation
    (visible : embedding.innerBelow.size ≤ frame.act.toNat)
    (activation : Activation) :
    Follows embedding Eq
      (modify fun memory =>
        { memory with
          activations := memory.activations.setIfInBounds frame.act.toNat activation })
      (modify fun memory =>
        { memory with
          activations :=
            memory.activations.setIfInBounds frame.act.toNat
              (embedding.activation activation) }) := by
  intro before after embeds
  obtain ⟨own, innerOwn, outerOwn⟩ := embeds.activations
  let position := frame.act.toNat - embedding.innerBelow.size
  have innerSet :
      before.activations.setIfInBounds frame.act.toNat activation =
        embedding.innerBelow ++ own.setIfInBounds position activation := by
    rw [innerOwn, Array.setIfInBounds_append_right visible]
  have outerSet :
      after.activations.setIfInBounds frame.act.toNat (embedding.activation activation) =
        embedding.outerBelow ++
          (own.setIfInBounds position activation).map embedding.activation := by
    rw [outerOwn, Array.setIfInBounds_append_right (embedding.below_size ▸ visible),
      embedding.below_size, Array.map_setIfInBounds]
  exact .ok rfl ⟨embeds.world, embeds.statics, _, innerSet, outerSet⟩

/-- The declaration of a variable. -/
theorem declare
    (tree : Tree)
    (visible : embedding.innerBelow.size ≤ frame.act.toNat)
    (slot : LocalSlot)
    (limits : Limits)
    (initial : Option ExprId)
    (incoming : Option Completion) :
    Follows embedding embedding.Moves
      (Step.declare tree frame slot limits initial incoming)
      (Step.declare tree (embedding.frame frame) slot limits initial
        (incoming.map embedding.completion)) := by
  unfold Step.declare
  refine (activationOf visible).bind ?_
  rintro activation _ rfl
  have former :
      (embedding.activation activation).locals[slot.index]? =
        activation.locals[slot.index]?.map embedding.cell := by
    simp [Relocation.activation]
  rw [former]
  refine (require _ _).bind ?_
  rintro former _ rfl
  refine heap.bind fun inner outer embeds => ?_
  rw [embeds.cell, Relocation.content_ty, Relocation.frame_state]
  have place (cell : CellId) :
      Follows embedding embedding.Moves
        (do
          modify fun memory =>
            { memory with
              activations := memory.activations.setIfInBounds frame.act.toNat
                { activation with locals := activation.locals.setIfInBounds slot.index cell } }
          Step.done)
        (do
          modify fun memory =>
            { memory with
              activations := memory.activations.setIfInBounds frame.act.toNat
                { embedding.activation activation with
                  locals :=
                    (embedding.activation activation).locals.setIfInBounds slot.index
                      (embedding.cell cell) } }
          Step.done) := by
    refine bind (R := Eq) ?_ fun _ _ _ => done
    have replaced :=
      setActivation visible
        { activation with locals := activation.locals.setIfInBounds slot.index cell }
    simpa [Relocation.activation] using replaced
  split
  · exact pushExpression (by exact visible) _ _
  · refine (allocate (R := Renamed embedding.cell) fun _ _ embeds =>
      embeds.addFresh _ limits).bind ?_
    rintro cell _ rfl
    exact place cell
  · refine (valueOf incoming).bind ?_
    rintro value _ rfl
    refine (require_same _ _).bind ?_
    rintro initial _ rfl
    refine (addDeclared _).bind ?_
    rintro cell _ rfl
    refine (typeOf tree initial).bind ?_
    rintro source _ rfl
    refine (storeDeclared cell value source limits).bind fun _ _ _ => ?_
    exact place cell

section Loops

variable (visible : embedding.innerBelow.size ≤ frame.act.toNat)

include visible

/-- The test of a `for` loop that has been evaluated. -/
theorem forTested
    (body : StmtId)
    (incoming : Option Completion) :
    Follows embedding embedding.Moves (Step.forTested frame body incoming)
      (Step.forTested (embedding.frame frame) body (incoming.map embedding.completion)) := by
  have started (goOn : Bool) :
      Follows embedding embedding.Moves
        (if goOn then Pure.pure (Step.pushStatement { frame with state := 4 } body)
        else Step.done)
        (if goOn then
          Pure.pure (Step.pushStatement { embedding.frame frame with state := 4 } body)
        else Step.done) := by
    split
    · exact pushStatement (by exact visible) body
    · exact done
  unfold Step.forTested
  rw [Option.isSome_map]
  dsimp only
  split
  · refine (conditionOf incoming).bind ?_
    rintro goOn _ rfl
    exact started goOn
  · exact started true

/-- The test of a `for` loop. -/
theorem forTest
    (condition : Option ExprId)
    (body : StmtId)
    (incoming : Option Completion) :
    Follows embedding embedding.Moves (Step.forTest frame condition body incoming)
      (Step.forTest (embedding.frame frame) condition body
        (incoming.map embedding.completion)) := by
  cases condition with
  | some condition =>
      exact pushExpression (by exact visible) condition .value
  | none => exact forTested (by exact visible) body incoming

/-- The expressions that a `for` loop evaluates after its body. -/
theorem forSteps
    (steps : List ExprId) :
    Follows embedding embedding.Moves (Step.forSteps frame steps)
      (Step.forSteps (embedding.frame frame) steps) := by
  unfold Step.forSteps
  rw [Relocation.frame_cursor]
  split
  · exact pushExpression (by exact visible) _ _
  · exact tick (by exact visible)

/-- A `for` loop. -/
theorem forLoop
    (label : Option String)
    (initial : List StmtId)
    (condition : Option ExprId)
    (steps : List ExprId)
    (body : StmtId)
    (incoming : Option Completion) :
    Follows embedding embedding.Moves
      (Step.forLoop frame label initial condition steps body incoming)
      (Step.forLoop (embedding.frame frame) label initial condition steps body
        (incoming.map embedding.completion)) := by
  unfold Step.forLoop
  rw [Relocation.frame_state, Relocation.frame_cursor, Option.isSome_map]
  split
  · refine (settle incoming).bind fun _ _ _ => ?_
    split
    · exact pushStatement (by exact visible) _
    · exact forTest visible condition body none
  · exact forTest visible condition body incoming
  · exact forTested visible body incoming
  · refine (goesOn label incoming).bind ?_
    rintro goOn _ rfl
    split
    · exact forSteps (by exact visible) steps
    · exact done
  · split
    · exact (valueOf incoming).bind fun _ _ _ => forSteps visible steps
    · exact forSteps visible steps

/-- The next round of a `repeat` loop. -/
theorem nextRound
    (body : StmtId) :
    Follows embedding embedding.Moves (Step.nextRound frame body)
      (Step.nextRound (embedding.frame frame) body) := by
  have left :
      ((embedding.frame frame).values.head?.bind Value.int?).getD 0 =
        (frame.values.head?.bind Value.int?).getD 0 := by
    cases shape : frame.values <;> simp [shape]
  unfold Step.nextRound
  rw [left]
  dsimp only
  split
  · exact done
  · exact pushStatement (by exact visible) body

/-- A `repeat` loop. -/
theorem repeatLoop
    (label : Option String)
    (count : ExprId)
    (body : StmtId)
    (incoming : Option Completion) :
    Follows embedding embedding.Moves (Step.repeatLoop frame label count body incoming)
      (Step.repeatLoop (embedding.frame frame) label count body
        (incoming.map embedding.completion)) := by
  unfold Step.repeatLoop
  rw [Relocation.frame_state]
  split
  · exact pushExpression (by exact visible) count .value
  · have counted (value : Value) :
        Follows embedding embedding.Moves
          (do
            let rounds ← Step.require .badNumber value.int?
            Step.nextRound { frame with values := [.int rounds], state := 3 } body)
          (do
            let rounds ← Step.require .badNumber value.int?
            Step.nextRound { embedding.frame frame with values := [.int rounds], state := 3 }
              body) := by
      refine (require_same _ _).bind ?_
      rintro rounds _ rfl
      exact nextRound (by exact visible) body
    refine (valueOf incoming).bind ?_
    rintro value _ rfl
    cases value with
    | nan => exact raise _
    | void => exact counted .void
    | bool flag => exact counted (.bool flag)
    | int number => exact counted (.int number)
    | float number => exact counted (.float number)
    | str text => exact counted (.str text)
    | null => exact counted .null
    | array id => exact counted (.array id)
    | object id => exact counted (.object id)
  · exact nextRound visible body
  · refine (goesOn label incoming).bind ?_
    rintro goOn _ rfl
    split
    · exact tick (by exact visible)
    · exact done

end Loops

/-- A switch. -/
theorem switchOn
    (visible : embedding.innerBelow.size ≤ frame.act.toNat)
    (value : ExprId)
    (cases : List SwitchCase)
    (body : List StmtId)
    (incoming : Option Completion) :
    Follows embedding embedding.Moves (Step.switchOn frame value cases body incoming)
      (Step.switchOn (embedding.frame frame) value cases body
        (incoming.map embedding.completion)) := by
  have goOn (incoming : Option Completion) :
      Follows embedding embedding.Moves
        (do
          Step.settle incoming
          Step.nextStatement frame body)
        (do
          Step.settle (incoming.map embedding.completion)
          Step.nextStatement (embedding.frame frame) body) :=
    (settle incoming).bind fun _ _ _ => nextStatement visible body
  unfold Step.switchOn
  rw [Relocation.frame_state]
  split
  · exact pushExpression (by exact visible) value .value
  · refine (valueOf incoming).bind ?_
    rintro selected _ rfl
    rw [Relocation.value_int?]
    refine (require_same _ _).bind ?_
    rintro selected _ rfl
    dsimp only
    split
    · next entry _ =>
        exact nextStatement (by exact visible) body
    · exact done
  · match incoming with
    | some (.breakTo none) => exact done
    | none => exact goOn none
    | some (.breakTo (some label)) => exact goOn (some (.breakTo (some label)))
    | some .normal => exact goOn (some .normal)
    | some (.value value) => exact goOn (some (.value value))
    | some (.place cell) => exact goOn (some (.place cell))
    | some (.continueTo label) => exact goOn (some (.continueTo label))
    | some (.returned value) => exact goOn (some (.returned value))
    | some (.thrown error) => exact goOn (some (.thrown error))

/-- The exception that a `throw` raises. -/
theorem thrown
    (value : Value)
    (span : Span) :
    Follows embedding embedding.Moves (Step.thrown value span)
      (Step.thrown (embedding.value value) span) := by
  unfold Step.thrown
  rw [Relocation.value_int?]
  refine (require_same _ _).bind ?_
  rintro code _ rfl
  split
  · exact complete (.thrown _)
  · exact raise _

/-- A statement that has been entered. -/
theorem entered
    (setting : Setting)
    (visible : embedding.innerBelow.size ≤ frame.act.toNat)
    (node : Stmt)
    (incoming : Option Completion) :
    Follows embedding embedding.Moves (Step.entered setting frame node incoming)
      (Step.entered setting (embedding.frame frame) node
        (incoming.map embedding.completion)) := by
  obtain ⟨kind, span⟩ := node
  cases kind with
  | expression value =>
      simp only [Step.entered, Relocation.frame_state]
      split
      · exact pushExpression (by exact visible) value .value
      · exact (valueOf incoming).bind fun _ _ _ => done
  | declare slot limits initial =>
      exact declare setting.tree visible slot limits initial incoming
  | block statements =>
      exact (settle incoming).bind fun _ _ _ => nextStatement visible statements
  | branch condition whenTrue whenFalse =>
      simp only [Step.entered, Relocation.frame_state]
      split
      · exact pushExpression (by exact visible) condition .value
      · refine (conditionOf incoming).bind ?_
        rintro holds _ rfl
        split
        · exact pushStatement (by exact visible) _
        · exact done
      · exact (settle incoming).bind fun _ _ _ => done
  | whileLoop label condition body =>
      simp only [Step.entered, Relocation.frame_state]
      split
      · exact pushExpression (by exact visible) condition .value
      · refine (conditionOf incoming).bind ?_
        rintro holds _ rfl
        split
        · exact pushStatement (by exact visible) body
        · exact done
      · refine (goesOn label incoming).bind ?_
        rintro goOn _ rfl
        split
        · exact tick (by exact visible)
        · exact done
  | doLoop label body condition =>
      simp only [Step.entered, Relocation.frame_state]
      split
      · exact pushStatement (by exact visible) body
      · refine (goesOn label incoming).bind ?_
        rintro goOn _ rfl
        split
        · exact tick (by exact visible)
        · exact done
      · exact pushExpression (by exact visible) condition .value
      · refine (conditionOf incoming).bind ?_
        rintro holds _ rfl
        split
        · exact pushStatement (by exact visible) body
        · exact done
  | forLoop label initial condition steps body =>
      exact forLoop visible label initial condition steps body incoming
  | repeatLoop label count body =>
      exact repeatLoop visible label count body incoming
  | switchOn value cases body =>
      exact switchOn visible value cases body incoming
  | breakTo label => exact complete (.breakTo label)
  | continueTo label => exact complete (.continueTo label)
  | returnWith value =>
      cases value with
      | none => exact complete (.returned .void)
      | some value =>
          simp only [Step.entered, Relocation.frame_state]
          split
          · exact pushExpression (by exact visible) value .value
          · refine (valueOf incoming).bind ?_
            rintro result _ rfl
            refine (activationOf visible).bind ?_
            rintro activation _ rfl
            refine (require_same _ activation.function).bind ?_
            rintro id _ rfl
            refine (part _).bind ?_
            rintro function _ rfl
            refine (typeOf _ value).bind ?_
            rintro source _ rfl
            refine (convert result source function.result).bind ?_
            rintro result _ rfl
            exact complete (.returned result)
  | throwCode value =>
      simp only [Step.entered, Relocation.frame_state]
      split
      · exact pushExpression (by exact visible) value .value
      · refine (valueOf incoming).bind ?_
        rintro value _ rfl
        exact thrown value span
  | guarded body clauses final =>
      exact guarded visible body clauses final incoming

/-- A statement. -/
theorem statement
    (setting : Setting)
    (visible : embedding.innerBelow.size ≤ frame.act.toNat)
    (id : StmtId)
    (incoming : Option Completion) :
    Follows embedding embedding.Moves (Step.statement setting frame id incoming)
      (Step.statement setting (embedding.frame frame) id
        (incoming.map embedding.completion)) := by
  unfold Step.statement
  rw [Relocation.frame_state]
  split
  · exact tick (by exact visible)
  · refine (part _).bind ?_
    rintro node _ rfl
    exact entered setting visible node incoming

end Step.Follows

/-!
## The host in lockstep

A native function sees the heap and the host.  It respects relocations if it
does the same on an outer world as on the inner one, with arguments that have
been moved.  The natives of the standard library do.
-/

/-- An action on an outer world does what an action on an inner world does. -/
def Action.Follows
    {α β : Type} (shift : Relocation) (related : α → β → Prop)
    (inner : Action α) (outer : Action β) :
    Prop :=
  ∀ before after,
    World.Embeds shift before after →
    Agree related (inner.run.run before).1 (outer.run.run after).1 ∧
      World.Embeds shift (inner.run.run before).2 (outer.run.run after).2

/-- A call whose receiver and arguments lie on the outer heap. -/
def Relocation.call (shift : Relocation) (call : NativeCall) : NativeCall :=
  { call with
    receiver := call.receiver.map shift.object
    arguments := call.arguments.map shift.value }

/-- The natives of a registry do the same on both worlds of a relocation. -/
def Registry.Respects (registry : Registry) (shift : Relocation) : Prop :=
  ∀ id call,
    Action.Follows shift (Renamed shift.value)
      (registry.call id call) (registry.call id (shift.call call))

/-- All natives respect the relocation that leaves everything where it is. -/
theorem Registry.respects_stay
    (registry : Registry) :
    registry.Respects .stay := by
  intro native call before after embeds
  have world : after = before := by
    obtain ⟨heap, host⟩ := before
    obtain ⟨otherHeap, otherHost⟩ := after
    rw [World.mk.injEq]
    exact ⟨embeds.heap.eq_of_stay, embeds.host⟩
  have sameCall : Relocation.stay.call call = call := by
    simp [Relocation.call]
  rw [world, sameCall, Relocation.stay_value]
  have renamed (value : Value) : Renamed id value value := rfl
  exact ⟨.refl renamed _, .refl _, rfl⟩

/-- An action on the world within a step. -/
theorem Step.Follows.ofAction
    {embedding : Embedding}
    {α β : Type}
    {related : α → β → Prop}
    {inner : Action α}
    {outer : Action β}
    (follows : Action.Follows embedding.toRelocation related inner outer) :
    Step.Follows embedding related (Step.ofAction inner) (Step.ofAction outer) := by
  refine bind (R := Agree related) ?_ fun _ _ agree => ofChecked agree
  intro before after embeds
  obtain ⟨agree, world⟩ := follows before.world after.world embeds.world
  exact .ok agree ⟨world, embeds.statics, embeds.activations⟩

end BotScript
