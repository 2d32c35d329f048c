import BotScript.Machine.Guarded

namespace BotScript

/-!
# Steps of statements

Every statement counts one step when it is entered, and a loop counts one more
for each round after the first.  Loops take the jumps that aim at them, and a
switch takes a break without a label.
-/

/-- Whether a jump, with a label or without, aims at a loop. -/
def jumpAims (jump label : Option String) : Bool :=
  match jump with
  | some _ => jump == label
  | none => true

namespace Step

/-- The end of a statement. -/
def done : Step Move :=
  pure (.complete .normal)

/-- Whether a loop goes on after its body. -/
def goesOn (label : Option String) (incoming : Option Completion) : Step Bool := do
  match incoming with
  | some (.breakTo jump) =>
      if jumpAims jump label then pure false else throw (.propagate (.breakTo jump))
  | some (.continueTo jump) =>
      if jumpAims jump label then pure true else throw (.propagate (.continueTo jump))
  | _ =>
      settle incoming
      pure true

/-- Run the statement under the cursor, or end. -/
def nextStatement (frame : Frame) (statements : List StmtId) : Step Move :=
  match statements[frame.cursor.toNat]? with
  | some next => pure (pushStatement { frame with cursor := frame.cursor + 1 } next)
  | none => done

/-- The declaration of a variable. -/
def declare
    (tree : Tree) (frame : Frame) (slot : LocalSlot) (limits : Limits) (initial : Option ExprId)
    (incoming : Option Completion) :
    Step Move := do
  let activation ← activationOf frame
  let former ← require .undefinedVariable activation.locals[slot.index]?
  let ty := ((← heap).cell former).ty
  let place (cell : CellId) : Step Move := do
    modify fun memory =>
      { memory with
        activations := memory.activations.setIfInBounds frame.act.toNat
          { activation with locals := activation.locals.setIfInBounds slot.index cell } }
    done
  match frame.state, initial with
  | 1, some initial => pure (pushExpression { frame with state := 2 } initial .value)
  | 1, none => place (← allocate fun heap => heap.addFresh ty limits)
  | _, initial =>
      let value ← valueOf incoming
      let initial ← require .notRunning initial
      let cell ← allocate fun heap => heap.addCell (.declared ty)
      storeDeclared cell value (← typeOf tree initial) limits
      place cell

/-- The test of a `for` loop that has been evaluated, if there is one. -/
def forTested (frame : Frame) (body : StmtId) (incoming : Option Completion) : Step Move := do
  let goOn ← if incoming.isSome then conditionOf incoming else pure true
  if goOn then pure (pushStatement { frame with state := 4 } body) else done

/-- The test of a `for` loop. -/
def forTest
    (frame : Frame) (condition : Option ExprId) (body : StmtId) (incoming : Option Completion) :
    Step Move :=
  match condition with
  | some condition => pure (pushExpression { frame with state := 3 } condition .value)
  | none => forTested { frame with state := 3 } body incoming

/-- The expressions that a `for` loop evaluates after its body. -/
def forSteps (frame : Frame) (steps : List ExprId) : Step Move :=
  match steps[frame.cursor.toNat]? with
  | some next => pure (pushExpression { frame with cursor := frame.cursor + 1 } next .value)
  | none => pure (.tick { frame with state := 2 })

/-- A step of a `for` loop. -/
def forLoop
    (frame : Frame) (label : Option String) (initial : List StmtId) (condition : Option ExprId)
    (steps : List ExprId) (body : StmtId) (incoming : Option Completion) :
    Step Move := do
  match frame.state with
  | 1 =>
      settle incoming
      match initial[frame.cursor.toNat]? with
      | some next => pure (pushStatement { frame with cursor := frame.cursor + 1 } next)
      | none => forTest frame condition body none
  | 2 => forTest frame condition body incoming
  | 3 => forTested frame body incoming
  | 4 =>
      if ← goesOn label incoming then forSteps { frame with cursor := 0, state := 5 } steps
      else done
  | _ =>
      if incoming.isSome then
        let _ ← valueOf incoming
      forSteps frame steps

/-- The next round of a `repeat` loop; the first value counts the rounds left. -/
def nextRound (frame : Frame) (body : StmtId) : Step Move :=
  let left := (frame.values.head?.bind Value.int?).getD 0
  if left ≤ 0 then done
  else pure (pushStatement { frame with values := [.int (left - 1)], state := 4 } body)

/-- A step of a `repeat` loop. -/
def repeatLoop
    (frame : Frame) (label : Option String) (count : ExprId) (body : StmtId)
    (incoming : Option Completion) :
    Step Move := do
  match frame.state with
  | 1 => pure (pushExpression { frame with state := 2 } count .value)
  | 2 =>
      match ← valueOf incoming with
      | .nan => raise .nanOperand
      | value =>
          let rounds ← require .badNumber value.int?
          nextRound { frame with values := [.int rounds], state := 3 } body
  | 3 => nextRound frame body
  | _ => if ← goesOn label incoming then pure (.tick { frame with state := 3 }) else done

/-- A step of a switch. -/
def switchOn
    (frame : Frame) (value : ExprId) (cases : List SwitchCase) (body : List StmtId)
    (incoming : Option Completion) :
    Step Move := do
  match frame.state with
  | 1 => pure (pushExpression { frame with state := 2 } value .value)
  | 2 =>
      let selected ← require .badType1 (← valueOf incoming).int?
      let entry := (cases.find? fun entry => entry.value == some selected).or
        (cases.find? fun entry => entry.value.isNone)
      match entry with
      | some entry => nextStatement { frame with cursor := entry.start, state := 3 } body
      | none => done
  | _ =>
      match incoming with
      | some (.breakTo none) => done
      | _ =>
          settle incoming
          nextStatement frame body

/-- The exception that a `throw` with a number raises; the number must be positive. -/
def thrown (value : Value) (span : Span) : Step Move := do
  let code ← require .badThrow value.int?
  if 0 < code && code == code.toInt32.toInt64 then
    pure (.complete (.thrown ⟨code.toInt32, span⟩))
  else raise .badThrow

/-- A step of a statement that has been entered. -/
def entered
    (setting : Setting) (frame : Frame) (node : Stmt) (incoming : Option Completion) :
    Step Move := do
  let tree := setting.tree
  match node.kind with
  | .expression value =>
      match frame.state with
      | 1 => pure (pushExpression { frame with state := 2 } value .value)
      | _ =>
          let _ ← valueOf incoming
          done
  | .declare slot limits initial => declare tree frame slot limits initial incoming
  | .block statements =>
      settle incoming
      nextStatement frame statements
  | .branch condition whenTrue whenFalse =>
      match frame.state with
      | 1 => pure (pushExpression { frame with state := 2 } condition .value)
      | 2 =>
          let branch := if ← conditionOf incoming then some whenTrue else whenFalse
          match branch with
          | some branch => pure (pushStatement { frame with state := 3 } branch)
          | none => done
      | _ =>
          settle incoming
          done
  | .whileLoop label condition body =>
      match frame.state with
      | 1 => pure (pushExpression { frame with state := 2 } condition .value)
      | 2 =>
          if ← conditionOf incoming then pure (pushStatement { frame with state := 3 } body)
          else done
      | _ => if ← goesOn label incoming then pure (.tick { frame with state := 1 }) else done
  | .doLoop label body condition =>
      match frame.state with
      | 1 => pure (pushStatement { frame with state := 2 } body)
      | 2 => if ← goesOn label incoming then pure (.tick { frame with state := 3 }) else done
      | 3 => pure (pushExpression { frame with state := 4 } condition .value)
      | _ =>
          if ← conditionOf incoming then pure (pushStatement { frame with state := 2 } body)
          else done
  | .forLoop label initial condition steps body =>
      forLoop frame label initial condition steps body incoming
  | .repeatLoop label count body => repeatLoop frame label count body incoming
  | .switchOn value cases body => switchOn frame value cases body incoming
  | .breakTo label => pure (.complete (.breakTo label))
  | .continueTo label => pure (.complete (.continueTo label))
  | .returnWith none => pure (.complete (.returned .void))
  | .returnWith (some value) =>
      match frame.state with
      | 1 => pure (pushExpression { frame with state := 2 } value .value)
      | _ =>
          let result ← valueOf incoming
          let id ← require .notRunning (← activationOf frame).function
          let function ← part (tree.function? id)
          let result ← convert result (← typeOf tree value) function.result
          pure (.complete (.returned result))
  | .throwCode value =>
      match frame.state with
      | 1 => pure (pushExpression { frame with state := 2 } value .value)
      | _ => thrown (← valueOf incoming) node.span
  | .guarded body clauses final => guarded frame body clauses final incoming

/-- A step of a statement. -/
def statement
    (setting : Setting) (frame : Frame) (id : StmtId) (incoming : Option Completion) :
    Step Move := do
  match frame.state with
  | 0 => pure (.tick { frame with state := 1 })
  | _ => entered setting frame (← part (setting.tree.stmt? id)) incoming

end Step

/-- The last step that the frames of a statement can be at. -/
def StmtKind.lastState : StmtKind → UInt32
  | .block _ | .breakTo _ | .continueTo _ => 1
  | .expression _ | .declare _ _ _ | .returnWith _ | .throwCode _ => 2
  | .branch _ _ _ | .whileLoop _ _ _ | .switchOn _ _ _ => 3
  | .doLoop _ _ _ | .repeatLoop _ _ _ => 4
  | .forLoop _ _ _ _ _ => 5
  | .guarded _ _ _ => 9

end BotScript
