import BotScript.Machine.Memory

namespace BotScript

/-!
# Steps of try statements

The body runs one statement at a time.  After each of them every boolean
clause is polled, and the first one that holds diverts to its handler.  An
exception of the body is matched against the clauses in order.  What ends the
body or the handler is held back while the final block runs, and goes on
afterwards unless the final block itself ends abruptly.

The states of the frame are: 1 body, 2 poll, 3 result of a poll, 4 match,
5 result of a match, 6 handler, 7 handler done, 8 final block, 9 final block done.
-/

namespace Step

/-- State 8: run the final block, or go on with what was held back. -/
def runFinal (frame : Frame) (final : Option StmtId) : Step Move :=
  match final with
  | some final => pure (pushStatement { frame with state := 9 } final)
  | none => pure (.complete (frame.pending.getD .normal))

/-- Hold a completion back and run the final block. -/
def endWith (frame : Frame) (final : Option StmtId) (completion : Completion) : Step Move :=
  runFinal { frame with pending := some completion, state := 8 } final

/-- State 6: run the handler of the chosen clause. -/
def runHandler (frame : Frame) (clauses : List CatchClause) : Step Move := do
  let clause ← require .notRunning clauses[frame.aux.toNat]?
  pure (pushStatement { frame with state := 7 } clause.body)

/-- State 4: test the clause under the second cursor against the exception held back. -/
def matchClause (frame : Frame) (clauses : List CatchClause) (final : Option StmtId) :
    Step Move :=
  match clauses[frame.aux.toNat]? with
  | some clause => pure (pushExpression { frame with state := 5 } clause.condition .value)
  | none => runFinal { frame with state := 8 } final

/-- Hold an exception back and match it against the clauses. -/
def matchFirst
    (frame : Frame) (clauses : List CatchClause) (final : Option StmtId) (error : RuntimeError) :
    Step Move :=
  matchClause { frame with pending := some (.thrown error), aux := 0 } clauses final

/-- State 1 with nothing to look at: run the next statement of the body. -/
def nextGuarded (frame : Frame) (body : List StmtId) (final : Option StmtId) : Step Move :=
  match body[frame.cursor.toNat]? with
  | some next => pure (pushStatement { frame with cursor := frame.cursor + 1, state := 1 } next)
  | none => endWith frame final .normal

/-- The first boolean clause at or after a position. -/
def conditionFrom? (clauses : List CatchClause) (start : Nat) : Option (Nat × CatchClause) :=
  (clauses.zipIdx.drop start).findSome? fun (clause, index) =>
    if clause.kind == .condition then some (index, clause) else none

/-- State 2: poll the next boolean clause; the body goes on when there is none. -/
def poll (frame : Frame) (clauses : List CatchClause) (otherwise : Frame → Step Move) :
    Step Move :=
  match conditionFrom? clauses frame.aux.toNat with
  | some (index, clause) =>
      pure (pushExpression { frame with aux := UInt32.ofNat index, state := 3 }
        clause.condition .value)
  | none => otherwise { frame with state := 1 }

/-- State 1: look at how the last statement of the body ended. -/
def bodyEnded
    (frame : Frame) (body : List StmtId) (clauses : List CatchClause) (final : Option StmtId)
    (incoming : Option Completion) :
    Step Move :=
  match incoming with
  | none => nextGuarded frame body final
  | some (.thrown error) => matchFirst frame clauses final error
  | some completion =>
      if completion.isAbrupt then endWith frame final completion
      else if clauses.any fun clause => clause.kind == .condition then
        poll { frame with aux := 0 } clauses fun frame => nextGuarded frame body final
      else nextGuarded frame body final

/-- Whether a clause catches the exception held back. -/
def catches (frame : Frame) (clause : CatchClause) (tested : Value) : Step Bool :=
  match clause.kind with
  | .condition => truth tested
  | .code =>
      match frame.pending with
      | some (.thrown error) => pure (tested.int? == some error.code.toInt64)
      | _ => pure false

/-- State 5: look at the test of a clause; a test that fails replaces the exception. -/
def matchEnded
    (frame : Frame) (clauses : List CatchClause) (final : Option StmtId)
    (incoming : Option Completion) :
    Step Move := do
  match incoming with
  | some (.thrown error) => endWith frame final (.thrown error)
  | _ =>
      let clause ← require .notRunning clauses[frame.aux.toNat]?
      let tested ← valueOf incoming
      if ← catches frame clause tested then runHandler { frame with pending := none } clauses
      else matchClause { frame with aux := frame.aux + 1 } clauses final

/-- State 3: look at the poll of a boolean clause. -/
def pollEnded
    (frame : Frame) (body : List StmtId) (clauses : List CatchClause) (final : Option StmtId)
    (incoming : Option Completion) :
    Step Move := do
  match incoming with
  | some (.thrown error) => matchFirst frame clauses final error
  | _ =>
      if ← conditionOf incoming then runHandler { frame with pending := none } clauses
      else
        poll { frame with aux := frame.aux + 1 } clauses fun frame =>
          nextGuarded frame body final

/-- A completion if it is abrupt, and another one otherwise. -/
def abruptOr (incoming : Option Completion) (other : Completion) : Completion :=
  match incoming with
  | some completion => if completion.isAbrupt then completion else other
  | none => other

/-- A step of a try statement. -/
def guarded
    (frame : Frame) (body : List StmtId) (clauses : List CatchClause) (final : Option StmtId)
    (incoming : Option Completion) :
    Step Move :=
  match frame.state with
  | 1 => bodyEnded frame body clauses final incoming
  | 2 => poll frame clauses fun frame => bodyEnded frame body clauses final incoming
  | 3 => pollEnded frame body clauses final incoming
  | 4 => matchClause frame clauses final
  | 5 => matchEnded frame clauses final incoming
  | 6 => runHandler frame clauses
  | 7 => endWith frame final (abruptOr incoming .normal)
  | 8 => runFinal frame final
  | _ => pure (.complete (abruptOr incoming (frame.pending.getD .normal)))

end Step

end BotScript
