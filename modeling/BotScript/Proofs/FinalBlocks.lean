import BotScript.Proofs.Discipline

namespace BotScript

open Spelled (word mark name)

/-!
# Final blocks

A try statement runs the statements of its body one at a time.  Behind each of
them it polls its boolean clauses; an exception is matched against all of its
clauses.  The first clause that holds runs its handler.  However this ends, the
final block runs next, once, and then the frame of the statement is done.
-/

/-- A part that a frame runs on top of itself: the state the frame waits in, and how it ends. -/
structure Episode where
  /-- What the frame goes on with: 1 body, 3 poll, 5 match, 7 handler, 9 final block. -/
  state : UInt32
  node : Node
  ended : Completion

/-- What a frame sees of the frames on top of it. -/
inductive Event where
  /-- The frame is at a state and pushes a frame of a node. -/
  | pushed (state : UInt32) (node : Node)
  /-- The frame on top is done and hands a completion down. -/
  | handed (completion : Completion)
  deriving DecidableEq

/-- A part is pushed, and its completion is handed down. -/
def Episode.events (episode : Episode) : List Event :=
  [.pushed episode.state episode.node, .handed episode.ended]

/-! ## Courses of try statements -/

/-- Whether the test of a clause catches an exception. -/
def CatchClause.Catches (clause : CatchClause) (error : RuntimeError) (tested : Value) : Prop :=
  match clause.kind with
  | .condition => tested = .bool true
  | .code => tested.int? = some error.code.toInt64

/-- The handler of a clause runs; a normal end of it is one of the statement. -/
def Handled (clause : CatchClause) (parts : List Episode) (held : Completion) : Prop :=
  ∃ ended,
    parts = [⟨7, .statement clause.body, ended⟩] ∧
      held = if ended.isAbrupt then ended else .normal

/-- An exception is matched against the clauses from a position on, up to what is held back. -/
inductive Matched (clauses : List CatchClause) (error : RuntimeError) :
    UInt32 → List Episode → Completion → Prop where
  | uncaught
      {position : UInt32} :
      clauses[position.toNat]? = none →
      Matched clauses error position [] (.thrown error)
  | fails
      {position : UInt32}
      {clause : CatchClause}
      {other : RuntimeError} :
      clauses[position.toNat]? = some clause →
      Matched clauses error position [⟨5, .expression clause.condition .value, .thrown other⟩]
        (.thrown other)
  | catches
      {position : UInt32}
      {clause : CatchClause}
      {tested : Value}
      {rest : List Episode}
      {held : Completion} :
      clauses[position.toNat]? = some clause →
      clause.Catches error tested →
      Handled clause rest held →
      Matched clauses error position
        (⟨5, .expression clause.condition .value, .value tested⟩ :: rest) held
  | passes
      {position : UInt32}
      {clause : CatchClause}
      {tested : Value}
      {rest : List Episode}
      {held : Completion} :
      clauses[position.toNat]? = some clause →
      ¬ clause.Catches error tested →
      Matched clauses error (position + 1) rest held →
      Matched clauses error position
        (⟨5, .expression clause.condition .value, .value tested⟩ :: rest) held

/--
The parts that a try statement runs from a statement of its body on, and the
completion that is held back behind them.  When a position among the clauses is
given, the boolean clauses from there on are polled first.
-/
inductive Tried (body : List StmtId) (clauses : List CatchClause) :
    Option UInt32 → UInt32 → List Episode → Completion → Prop where
  | exhausted
      {position : UInt32} :
      body[position.toNat]? = none →
      Tried body clauses none position [] .normal
  | leaves
      {position : UInt32}
      {statement : StmtId}
      {ended : Completion} :
      body[position.toNat]? = some statement →
      ended.isAbrupt = true →
      (∀ error, ended ≠ .thrown error) →
      Tried body clauses none position [⟨1, .statement statement, ended⟩] ended
  | throws
      {position : UInt32}
      {statement : StmtId}
      {error : RuntimeError}
      {rest : List Episode}
      {held : Completion} :
      body[position.toNat]? = some statement →
      Matched clauses error 0 rest held →
      Tried body clauses none position (⟨1, .statement statement, .thrown error⟩ :: rest) held
  | ends
      {position : UInt32}
      {statement : StmtId}
      {ended : Completion}
      {rest : List Episode}
      {held : Completion} :
      body[position.toNat]? = some statement →
      ended.isAbrupt = false →
      Tried body clauses (some 0) (position + 1) rest held →
      Tried body clauses none position (⟨1, .statement statement, ended⟩ :: rest) held
  | polled
      {clause position : UInt32}
      {rest : List Episode}
      {held : Completion} :
      Step.conditionFrom? clauses clause.toNat = none →
      Tried body clauses none position rest held →
      Tried body clauses (some clause) position rest held
  | pollFails
      {first position : UInt32}
      {index : Nat}
      {clause : CatchClause}
      {error : RuntimeError}
      {rest : List Episode}
      {held : Completion} :
      Step.conditionFrom? clauses first.toNat = some (index, clause) →
      Matched clauses error 0 rest held →
      Tried body clauses (some first) position
        (⟨3, .expression clause.condition .value, .thrown error⟩ :: rest) held
  | pollHolds
      {first position : UInt32}
      {index : Nat}
      {clause chosen : CatchClause}
      {rest : List Episode}
      {held : Completion} :
      Step.conditionFrom? clauses first.toNat = some (index, clause) →
      clauses[(UInt32.ofNat index).toNat]? = some chosen →
      Handled chosen rest held →
      Tried body clauses (some first) position
        (⟨3, .expression clause.condition .value, .value (.bool true)⟩ :: rest) held
  | pollPasses
      {first position : UInt32}
      {index : Nat}
      {clause : CatchClause}
      {rest : List Episode}
      {held : Completion} :
      Step.conditionFrom? clauses first.toNat = some (index, clause) →
      Tried body clauses (some (UInt32.ofNat index + 1)) position rest held →
      Tried body clauses (some first) position
        (⟨3, .expression clause.condition .value, .value (.bool false)⟩ :: rest) held

section Parts

variable {body : List StmtId} {clauses : List CatchClause} {parts : List Episode}
  {held : Completion} {position : UInt32}

/-- A handler is no final block. -/
theorem Handled.state_ne
    {clause : CatchClause}
    (handled : Handled clause parts held) :
    ∀ part ∈ parts, part.state ≠ 9 := by
  obtain ⟨ended, rfl, -⟩ := handled
  intro part member
  cases List.mem_singleton.mp member
  exact (by decide : (7 : UInt32) ≠ 9)

/-- Neither tests nor handlers are final blocks. -/
theorem Matched.state_ne
    {error : RuntimeError}
    (matched : Matched clauses error position parts held) :
    ∀ part ∈ parts, part.state ≠ 9 := by
  induction matched with
  | uncaught => simp
  | fails => simp
  | catches _ _ handled => simpa using handled.state_ne
  | passes _ _ _ inductionHypothesis => simpa using inductionHypothesis

/-- Nothing that a try statement runs in front of its final block is one. -/
theorem Tried.state_ne
    {poll : Option UInt32}
    (tried : Tried body clauses poll position parts held) :
    ∀ part ∈ parts, part.state ≠ 9 := by
  induction tried with
  | exhausted => simp
  | leaves => simp
  | throws _ matched => simpa using matched.state_ne
  | ends _ _ _ inductionHypothesis => simpa using inductionHypothesis
  | polled _ _ inductionHypothesis => exact inductionHypothesis
  | pollFails _ matched => simpa using matched.state_ne
  | pollHolds _ _ handled => simpa using handled.state_ne
  | pollPasses _ _ inductionHypothesis => simpa using inductionHypothesis

end Parts

/-! ## The frame of a try statement -/

section Frames

variable {body : List StmtId} {clauses : List CatchClause} {final : StmtId}
  {frame : Frame} {incoming : Option Completion}

/-- An expression evaluated for its value delivers one or ends with an exception. -/
theorem Node.Delivers.value_or_thrown
    {id : ExprId}
    {ended : Completion}
    (delivers : (Node.expression id .value).Delivers ended) :
    (∃ value, ended = .value value) ∨ ∃ error, ended = .thrown error := by
  cases ended with
  | value value => exact .inl ⟨value, rfl⟩
  | thrown error => exact .inr ⟨error, rfl⟩
  | _ => cases delivers

/-- The boolean clauses of a try statement deliver boolean values, if any. -/
def Truthful (clauses : List CatchClause) (node : Node) (ended : Completion) : Prop :=
  ∀ clause ∈ clauses, clause.kind = .condition → node = .expression clause.condition .value →
    ∀ tested, ended = .value tested → ∃ holds, tested = .bool holds

/-- Whether the frame of a try statement can be at a state and be handed a completion. -/
def Awaits (clauses : List CatchClause) (frame : Frame) (ended : Completion) : Prop :=
  match frame.state with
  | 1 | 7 | 9 => True
  | 3 =>
      frame.aux.toNat < clauses.length ∧
        ((∃ error, ended = .thrown error) ∨ ∃ holds, ended = .value (.bool holds))
  | 5 =>
      ∃ clause error,
        clauses[frame.aux.toNat]? = some clause ∧
          frame.pending = some (.thrown error) ∧
          ((∃ error, ended = .thrown error) ∨
            ∃ tested, ended = .value tested ∧
              (clause.kind = .condition → ∃ holds, tested = .bool holds))
  | _ => False

/--
The parts that the frame of a try statement still runs in front of its final
block, and what it holds back behind them, once it is handed a completion.
-/
def Due
    (body : List StmtId) (clauses : List CatchClause) (frame : Frame) (ended : Completion)
    (parts : List Episode) (held : Completion) : Prop :=
  match frame.state with
  | 1 =>
      (∃ error, ended = .thrown error ∧ Matched clauses error 0 parts held) ∨
        (ended.isAbrupt = true ∧ (∀ error, ended ≠ .thrown error) ∧ parts = [] ∧ held = ended) ∨
        (ended.isAbrupt = false ∧ Tried body clauses (some 0) frame.cursor parts held)
  | 3 =>
      (∃ error, ended = .thrown error ∧ Matched clauses error 0 parts held) ∨
        (ended = .value (.bool true) ∧
          ∃ clause, clauses[frame.aux.toNat]? = some clause ∧ Handled clause parts held) ∨
        (ended = .value (.bool false) ∧
          Tried body clauses (some (frame.aux + 1)) frame.cursor parts held)
  | 5 =>
      (∃ error, ended = .thrown error ∧ parts = [] ∧ held = .thrown error) ∨
        ∃ tested clause error,
          ended = .value tested ∧
            clauses[frame.aux.toNat]? = some clause ∧
            frame.pending = some (.thrown error) ∧
            (clause.Catches error tested ∧ Handled clause parts held ∨
              ¬ clause.Catches error tested ∧
                Matched clauses error (frame.aux + 1) parts held)
  | 7 => parts = [] ∧ held = if ended.isAbrupt then ended else .normal
  | _ => False

/--
The part that the frame of a try statement runs next is the next one of those
that are due, or the final block if none is left.
-/
def Follows
    (body : List StmtId) (clauses : List CatchClause) (final : StmtId)
    (due : List Episode → Completion → Prop) (stay : Frame) (node : Node) : Prop :=
  (node = .statement final ∧ stay.state = 9 ∧ ∃ held, stay.pending = some held ∧ due [] held) ∨
    (stay.state ≠ 9 ∧
      (∀ ended, node.Delivers ended → Truthful clauses node ended → Awaits clauses stay ended) ∧
      ∀ ended parts held,
        Due body clauses stay ended parts held → due (⟨stay.state, node, ended⟩ :: parts) held)

/-- A step of the frame of a try statement runs the part that follows. -/
def Leads
    (body : List StmtId) (clauses : List CatchClause) (final : StmtId) (origin : Frame)
    (due : List Episode → Completion → Prop) (step : Step Move) : Prop :=
  ∃ stay node,
    step = pure (.push stay (.enter node origin.act)) ∧
      stay.Stays origin ∧ Follows body clauses final due stay node

namespace Leads

variable {origin : Frame} {due : List Episode → Completion → Prop}

section

variable (stays : frame.Stays origin)

include stays

/-- The final block. -/
theorem endWith
    {held : Completion}
    (isDue : due [] held) :
    Leads body clauses final origin due (Step.endWith frame (some final) held) :=
  ⟨{ frame with pending := some held, state := 9 }, .statement final, by
    simp only [Step.endWith, Step.runFinal, Step.pushStatement, stays.2], stays,
    .inl ⟨rfl, rfl, held, rfl, isDue⟩⟩

/-- The handler of a clause. -/
theorem runHandler
    {clause : CatchClause}
    (found : clauses[frame.aux.toNat]? = some clause)
    (isDue : ∀ parts held, Handled clause parts held → due parts held) :
    Leads body clauses final origin due (Step.runHandler frame clauses) := by
  refine ⟨{ frame with state := 7 }, .statement clause.body, ?_, stays, .inr ⟨?_, ?_, ?_⟩⟩
  · rw [Step.runHandler, found, ← stays.2]
    rfl
  · exact (by decide : (7 : UInt32) ≠ 9)
  · exact fun _ _ _ => trivial
  · rintro ended _ _ ⟨rfl, rfl⟩
    exact isDue _ _ ⟨ended, rfl, rfl⟩

/-- The test of a clause against the exception held back. -/
theorem matchClause
    {error : RuntimeError}
    (pending : frame.pending = some (.thrown error))
    (isDue : ∀ parts held, Matched clauses error frame.aux parts held → due parts held) :
    Leads body clauses final origin due (Step.matchClause frame clauses (some final)) := by
  unfold Step.matchClause
  split
  · next clause found =>
      refine ⟨{ frame with state := 5 }, .expression clause.condition .value, ?_, stays,
        .inr ⟨?_, ?_, ?_⟩⟩
      · rw [← stays.2]
        rfl
      · exact (by decide : (5 : UInt32) ≠ 9)
      · intro ended delivers truthful
        refine ⟨clause, error, found, pending, ?_⟩
        obtain ⟨tested, rfl⟩ | thrown := delivers.value_or_thrown
        · exact .inr ⟨tested, rfl, fun isCondition =>
            truthful clause (List.mem_of_getElem? found) isCondition rfl tested rfl⟩
        · exact .inl thrown
      · rintro ended parts held
          (⟨other, rfl, rfl, rfl⟩ | ⟨tested, chosen, other, rfl, chosenFound, otherPending, rest⟩)
        · exact isDue _ _ (.fails found)
        · cases found.symm.trans chosenFound
          cases pending.symm.trans otherPending
          obtain ⟨catches, handled⟩ | ⟨passes, matched⟩ := rest
          · exact isDue _ _ (.catches found catches handled)
          · exact isDue _ _ (.passes found passes matched)
  · next none =>
      refine ⟨{ frame with state := 9 }, .statement final, ?_, stays,
        .inl ⟨rfl, rfl, .thrown error, pending, isDue _ _ (.uncaught none)⟩⟩
      rw [← stays.2]
      rfl

/-- The next statement of the body. -/
theorem nextGuarded
    (isDue : ∀ parts held, Tried body clauses none frame.cursor parts held → due parts held) :
    Leads body clauses final origin due (Step.nextGuarded frame body (some final)) := by
  unfold Step.nextGuarded
  split
  · next statement found =>
      refine ⟨{ frame with cursor := frame.cursor + 1, state := 1 }, .statement statement, ?_,
        stays, .inr ⟨?_, ?_, ?_⟩⟩
      · rw [← stays.2]
        rfl
      · exact (by decide : (1 : UInt32) ≠ 9)
      · exact fun _ _ _ => trivial
      · rintro ended parts held (⟨error, rfl, matched⟩ | ⟨abrupt, other, rfl, rfl⟩ | ⟨ends, tried⟩)
        · exact isDue _ _ (.throws found matched)
        · exact isDue _ _ (.leaves found abrupt other)
        · exact isDue _ _ (.ends found ends tried)
  · next none => exact endWith stays (isDue _ _ (.exhausted none))

omit stays in
/-- A boolean clause that is found is at its position. -/
theorem getElem?_of_conditionFrom?
    {start index : Nat}
    {clause : CatchClause}
    (found : Step.conditionFrom? clauses start = some (index, clause)) :
    clauses[index]? = some clause ∧ clause.kind = .condition := by
  unfold Step.conditionFrom? at found
  obtain ⟨⟨other, position⟩, member, chosen⟩ := List.exists_of_findSome?_eq_some found
  have inside := List.mem_of_mem_drop member
  dsimp only at chosen
  split at chosen
  · next isCondition =>
      cases chosen
      exact ⟨by simpa using List.mem_zipIdx_iff_getElem?.mp inside, by simpa using isCondition⟩
  · cases chosen

/-- The poll of the boolean clauses from one on. -/
theorem poll
    (isDue : ∀ parts held,
      Tried body clauses (some frame.aux) frame.cursor parts held → due parts held) :
    Leads body clauses final origin due
      (Step.poll frame clauses fun frame => Step.nextGuarded frame body (some final)) := by
  unfold Step.poll
  split
  · next index clause found =>
      obtain ⟨isThere, isCondition⟩ := getElem?_of_conditionFrom? found
      have inside : (UInt32.ofNat index).toNat < clauses.length := by
        have below := (List.getElem?_eq_some_iff.mp isThere).1
        simp only [UInt32.toNat_ofNat']
        omega
      refine ⟨{ frame with aux := UInt32.ofNat index, state := 3 },
        .expression clause.condition .value, ?_, stays, .inr ⟨?_, ?_, ?_⟩⟩
      · rw [← stays.2]
        rfl
      · exact (by decide : (3 : UInt32) ≠ 9)
      · intro ended delivers truthful
        refine ⟨inside, ?_⟩
        obtain ⟨tested, rfl⟩ | thrown := delivers.value_or_thrown
        · obtain ⟨holds, rfl⟩ :=
            truthful clause (List.mem_of_getElem? isThere) isCondition rfl tested rfl
          exact .inr ⟨holds, rfl⟩
        · exact .inl thrown
      · rintro ended parts held
          (⟨error, rfl, matched⟩ | ⟨rfl, chosen, chosenFound, handled⟩ | ⟨rfl, tried⟩)
        · exact isDue _ _ (.pollFails found matched)
        · exact isDue _ _ (.pollHolds found chosenFound handled)
        · exact isDue _ _ (.pollPasses found tried)
  · next none =>
      exact nextGuarded (by exact stays) fun _ _ tried => isDue _ _ (.polled none tried)

/-- An exception is matched against all clauses. -/
theorem matchFirst
    {error : RuntimeError}
    (isDue : ∀ parts held, Matched clauses error 0 parts held → due parts held) :
    Leads body clauses final origin due (Step.matchFirst frame clauses (some final) error) :=
  matchClause (by exact stays) rfl isDue

omit stays in
/-- No boolean clause is polled if there is none. -/
theorem conditionFrom?_of_not_any
    (start : Nat)
    (none : ¬ clauses.any (fun clause => clause.kind == .condition) = true) :
    Step.conditionFrom? clauses start = .none := by
  cases found : Step.conditionFrom? clauses start with
  | none => rfl
  | some entry =>
      obtain ⟨isThere, isCondition⟩ := getElem?_of_conditionFrom? found
      refine absurd (List.any_eq_true.mpr ⟨entry.2, List.mem_of_getElem? isThere, ?_⟩) none
      simp [isCondition]

/-- The end of a statement of the body. -/
theorem bodyEnded
    {ended : Completion}
    (state : frame.state = 1)
    (isDue : ∀ parts held, Due body clauses frame ended parts held → due parts held) :
    Leads body clauses final origin due
      (Step.bodyEnded frame body clauses (some final) (some ended)) := by
  unfold Due at isDue
  rw [state] at isDue
  unfold Step.bodyEnded
  split
  · next handed => cases handed
  · next error handed =>
      cases handed
      exact matchFirst stays fun parts held matched => isDue _ _ (.inl ⟨error, rfl, matched⟩)
  · next completion other handed =>
      cases handed
      have isOther : ∀ error, ended ≠ .thrown error := fun error same => other error (same ▸ rfl)
      split
      · next abrupt => exact endWith stays (isDue _ _ (.inr (.inl ⟨abrupt, isOther, rfl, rfl⟩)))
      · next ends =>
          have ends : ended.isAbrupt = false := by simpa using ends
          split
          · exact poll (by exact stays) fun _ _ tried => isDue _ _ (.inr (.inr ⟨ends, tried⟩))
          · next none =>
              refine nextGuarded stays fun _ _ tried => isDue _ _ (.inr (.inr ⟨ends, ?_⟩))
              exact .polled (conditionFrom?_of_not_any _ none) tried

/-- The end of a poll. -/
theorem pollEnded
    {ended : Completion}
    (state : frame.state = 3)
    (awaits : Awaits clauses frame ended)
    (isDue : ∀ parts held, Due body clauses frame ended parts held → due parts held) :
    Leads body clauses final origin due
      (Step.pollEnded frame body clauses (some final) (some ended)) := by
  unfold Due at isDue
  unfold Awaits at awaits
  rw [state] at isDue awaits
  obtain ⟨inside, ⟨error, rfl⟩ | ⟨holds, rfl⟩⟩ := awaits
  · exact matchFirst stays fun parts held matched => isDue _ _ (.inl ⟨error, rfl, matched⟩)
  · cases holds with
    | true =>
        have found := List.getElem?_eq_getElem inside
        exact runHandler (by exact stays) found fun parts held handled =>
          isDue _ _ (.inr (.inl ⟨rfl, _, found, handled⟩))
    | false =>
        exact poll (by exact stays) fun parts held tried => isDue _ _ (.inr (.inr ⟨rfl, tried⟩))

omit stays in
/-- The test of a clause with a value that it can look at says whether the clause catches. -/
theorem catches_iff
    {clause : CatchClause}
    {error : RuntimeError}
    {tested : Value}
    (pending : frame.pending = some (.thrown error))
    (boolean : clause.kind = .condition → ∃ holds, tested = .bool holds) :
    ∃ caught : Bool,
      Step.catches frame clause tested = pure caught ∧
        (caught = true ↔ clause.Catches error tested) := by
  obtain ⟨kind, condition, handler, span⟩ := clause
  cases kind with
  | condition =>
      obtain ⟨holds, rfl⟩ := boolean rfl
      exact ⟨holds, rfl, by simp [CatchClause.Catches]⟩
  | code =>
      refine ⟨tested.int? == some error.code.toInt64, ?_, by simp [CatchClause.Catches]⟩
      simp only [Step.catches, pending]

/-- The end of the test of a clause. -/
theorem matchEnded
    {ended : Completion}
    (state : frame.state = 5)
    (awaits : Awaits clauses frame ended)
    (isDue : ∀ parts held, Due body clauses frame ended parts held → due parts held) :
    Leads body clauses final origin due
      (Step.matchEnded frame clauses (some final) (some ended)) := by
  unfold Due at isDue
  unfold Awaits at awaits
  rw [state] at isDue awaits
  obtain ⟨clause, error, found, pending, ⟨other, rfl⟩ | ⟨tested, rfl, boolean⟩⟩ := awaits
  · exact endWith stays (isDue _ _ (.inl ⟨other, rfl, rfl, rfl⟩))
  · obtain ⟨caught, same, iff⟩ := catches_iff pending boolean
    have step :
        Step.matchEnded frame clauses (some final) (some (.value tested)) =
          if caught then Step.runHandler { frame with pending := none } clauses
          else Step.matchClause { frame with aux := frame.aux + 1 } clauses (some final) := by
      simp only [Step.matchEnded, found, Step.require, Step.valueOf, pure_bind, same]
    rw [step]
    split
    · next isCaught =>
        exact runHandler (by exact stays) found fun parts held handled =>
          isDue _ _ (.inr ⟨tested, clause, error, rfl, found, pending,
            .inl ⟨iff.mp isCaught, handled⟩⟩)
    · next isMissed =>
        exact matchClause (by exact stays) pending fun parts held matched =>
          isDue _ _ (.inr ⟨tested, clause, error, rfl, found, pending,
            .inr ⟨fun catches => isMissed (iff.mpr catches), matched⟩⟩)

end

/-- A step of the frame of a try statement that is handed a completion. -/
theorem guarded
    {ended : Completion}
    (awaits : Awaits clauses frame ended)
    (unfinished : frame.state ≠ 9) :
    Leads body clauses final frame (Due body clauses frame ended)
      (Step.guarded frame body clauses (some final) (some ended)) := by
  have awaited := awaits
  unfold Awaits at awaited
  split at awaited
  · next state =>
      simp only [Step.guarded, state]
      exact bodyEnded ⟨rfl, rfl⟩ state fun _ _ due => due
  · next state =>
      simp only [Step.guarded, state]
      refine endWith ⟨rfl, rfl⟩ ?_
      unfold Due
      rw [state]
      exact ⟨rfl, rfl⟩
  · next state => exact absurd state unfinished
  · next state =>
      simp only [Step.guarded, state]
      exact pollEnded ⟨rfl, rfl⟩ state awaits fun _ _ due => due
  · next state =>
      simp only [Step.guarded, state]
      exact matchEnded ⟨rfl, rfl⟩ state awaits fun _ _ due => due
  · cases awaited

end Leads

/-- Whether the frame of a try statement is at its start or waits for what it is handed. -/
def Open (clauses : List CatchClause) (frame : Frame) : Option Completion → Prop
  | none => frame.state = 1
  | some ended => Awaits clauses frame ended

/-- The parts that the frame of a try statement still runs, and what it holds back behind them. -/
def Rest
    (body : List StmtId) (clauses : List CatchClause) (frame : Frame) :
    Option Completion → List Episode → Completion → Prop
  | none => Tried body clauses none frame.cursor
  | some ended => Due body clauses frame ended

/-- A step of the frame of a try statement whose final block has not been run. -/
theorem Leads.unfinished
    (isOpen : Open clauses frame incoming)
    (unfinished : frame.state ≠ 9) :
    Leads body clauses final frame (Rest body clauses frame incoming)
      (Step.guarded frame body clauses (some final) incoming) := by
  cases incoming with
  | some ended => exact Leads.guarded isOpen unfinished
  | none =>
      have state : frame.state = 1 := isOpen
      simp only [Step.guarded, state, Step.bodyEnded]
      exact Leads.nextGuarded ⟨rfl, rfl⟩ fun _ _ tried => tried

/-- The frame of a try statement that has been entered makes the steps of one. -/
theorem Step.ofFrame_guarded
    {setting : Setting}
    {id : StmtId}
    {span : Span}
    (isNode : frame.node = .statement id)
    (isGuarded : setting.tree.stmt? id = some ⟨.guarded body clauses (some final), span⟩)
    (isOpen : Open clauses frame incoming) :
    Step.ofFrame setting frame incoming =
      Step.guarded frame body clauses (some final) incoming := by
  have entered : frame.state ≠ 0 := by
    intro state
    cases incoming with
    | none => exact absurd (state.symm.trans isOpen) (by decide)
    | some ended =>
        unfold Open Awaits at isOpen
        rw [state] at isOpen
        exact isOpen
  unfold Step.ofFrame
  rw [isNode]
  dsimp only
  unfold Step.statement
  split
  · next state => exact absurd state entered
  · rw [isGuarded]
    rfl

end Frames

/-! ## Runs -/

namespace Machine

/-- What a frame at a height sees when a machine goes on. -/
def event? (height : Nat) (machine next : Machine) : Option Event :=
  if machine.frames.length = height ∧ next.frames.length = height + 1 then
    match next.frames with
    | child :: frame :: _ => some (.pushed frame.state child.node)
    | _ => none
  else if machine.frames.length = height + 1 ∧ next.frames.length = height then
    next.incoming.map .handed
  else none

/-- A run up to the end of the frame at a height, and what this frame sees meanwhile. -/
inductive RunsOut (setting : Setting) (height : Nat) : Machine → List Event → Machine → Prop where
  | done
      {machine last : Machine} :
      Goes setting machine last →
      last.frames.length < height →
      RunsOut setting height machine [] last
  | goesOn
      {machine next last : Machine}
      {log : List Event} :
      Goes setting machine next →
      height ≤ next.frames.length →
      RunsOut setting height next log last →
      RunsOut setting height machine ((event? height machine next).toList ++ log) last

/-- The turns up to the end of the frame at a height, watched from this frame. -/
def watch (setting : Setting) (height : Nat) : Nat → Machine → Option (List Event × Machine)
  | 0, _ => none
  | fuel + 1, machine =>
      let after (next : Machine) :=
        if next.frames.length < height then some ([], next)
        else
          (watch setting height fuel next).map fun seen =>
            ((event? height machine next).toList ++ seen.1, seen.2)
      match machine.advance setting with
      | .moved next => after next
      | .counted next => after next
      | .ended _ => none

/-- What is watched is a run. -/
theorem RunsOut.of_watch
    {setting : Setting}
    {height fuel : Nat}
    {machine : Machine}
    {seen : List Event × Machine}
    (watched : watch setting height fuel machine = some seen) :
    RunsOut setting height machine seen.1 seen.2 := by
  induction fuel generalizing machine seen with
  | zero => cases watched
  | succ fuel inductionHypothesis =>
      have after
          (next : Machine)
          (goes : Goes setting machine next)
          (watched :
            (if next.frames.length < height then some ([], next)
              else
                (watch setting height fuel next).map fun seen =>
                  ((event? height machine next).toList ++ seen.1, seen.2)) = some seen) :
          RunsOut setting height machine seen.1 seen.2 := by
        split at watched
        · next shorter =>
            cases watched
            exact .done goes shorter
        · next longer =>
            obtain ⟨later, watchedLater, rfl⟩ := Option.map_eq_some_iff.mp watched
            exact .goesOn goes (Nat.le_of_not_lt longer) (inductionHypothesis watchedLater)
      unfold watch at watched
      cases turn : machine.advance setting with
      | moved next => exact after next (.moved turn) (by simpa [turn] using watched)
      | counted next => exact after next (.counted turn) (by simpa [turn] using watched)
      | ended _ => simp [turn] at watched

/-- How the frame of a try statement goes on and is done, once it is handed a completion. -/
def Finishes
    (body : List StmtId) (clauses : List CatchClause) (final : StmtId) (below : List Frame)
    (frame : Frame) (incoming : Option Completion) (log : List Event) (last : Machine) : Prop :=
  last.frames = below ∧
    if frame.state = 9 then
      log = [] ∧ last.incoming = some (Step.abruptOr incoming (frame.pending.getD .normal))
    else
      ∃ parts held ended,
        Rest body clauses frame incoming parts held ∧
          log = (parts ++ [(⟨9, .statement final, ended⟩ : Episode)]).flatMap Episode.events ∧
          last.incoming = some (Step.abruptOr (some ended) held)

section Runs

variable {setting : Setting} {machine next last : Machine} {log : List Event}
  {body : List StmtId} {clauses : List CatchClause} {final id : StmtId} {span : Span}
  {below : List Frame} {frame : Frame}

/-- A try statement runs the part that follows; behind its final block it is done. -/
theorem Goes.guarded
    (frames : machine.frames = frame :: below)
    (isNode : frame.node = .statement id)
    (isGuarded : setting.tree.stmt? id = some ⟨.guarded body clauses (some final), span⟩)
    (isOpen : Open clauses frame machine.incoming)
    (goes : Goes setting machine next) :
    (next.frames = machine.frames ∧ next.incoming = machine.incoming) ∨
      (frame.state = 9 ∧ next.frames = below ∧
        next.incoming =
          some (Step.abruptOr machine.incoming (frame.pending.getD .normal))) ∨
      (frame.state ≠ 9 ∧ ∃ stay node,
        next.frames = .enter node frame.act :: stay :: below ∧
          stay.Stays frame ∧
          Follows body clauses final (Rest body clauses frame machine.incoming) stay node) := by
  have step := Step.ofFrame_guarded isNode isGuarded isOpen
  by_cases isLast : frame.state = 9
  · have step :
        Step.ofFrame setting frame machine.incoming =
          pure (.complete (Step.abruptOr machine.incoming (frame.pending.getD .normal))) := by
      rw [step, Step.guarded, isLast]
      rfl
    obtain ⟨left, turn, leftFrames, handed⟩ := advance_complete frames step
    obtain same | rfl := goes.of_turn (.inl turn)
    · exact .inl same
    · exact .inr (.inl ⟨isLast, leftFrames, handed⟩)
  · have leads :
        Leads body clauses final frame (Rest body clauses frame machine.incoming)
          (Step.guarded frame body clauses (some final) machine.incoming) :=
      Leads.unfinished isOpen isLast
    obtain ⟨stay, node, isPush, stays, follows⟩ := leads
    obtain ⟨pushed, turn, pushedFrames, -⟩ := advance_push frames (step.trans isPush)
    obtain same | rfl := goes.of_turn (.inl turn)
    · exact .inl same
    · exact .inr (.inr ⟨isLast, stay, node, pushedFrames, stays, follows⟩)

/-- One more part in front of those that a try statement runs. -/
theorem Finishes.before
    {incoming : Option Completion}
    {stay : Frame}
    {node : Node}
    {ended : Completion}
    (unfinished : frame.state ≠ 9)
    (follows : Follows body clauses final (Rest body clauses frame incoming) stay node)
    (delivers : node.Delivers ended)
    (truthful : Truthful clauses node ended)
    (finishes :
      Awaits clauses stay ended → Finishes body clauses final below stay (some ended) log last) :
    Finishes body clauses final below frame incoming
      (.pushed stay.state node :: .handed ended :: log) last := by
  unfold Finishes at finishes ⊢
  rw [if_neg unfinished]
  obtain ⟨rfl, isLast, held, pending, isDue⟩ | ⟨isPart, awaits, isDue⟩ := follows
  · obtain ⟨frames, rest⟩ := finishes (by rw [Awaits, isLast]; trivial)
    rw [if_pos isLast, pending] at rest
    obtain ⟨rfl, handed⟩ := rest
    exact ⟨frames, [], held, ended, isDue, by rw [isLast]; rfl, handed⟩
  · obtain ⟨frames, rest⟩ := finishes (awaits ended delivers truthful)
    rw [if_neg isPart] at rest
    obtain ⟨parts, held, finalEnded, due, rfl, handed⟩ := rest
    exact ⟨frames, _, held, finalEnded, isDue ended parts held due, rfl, handed⟩

/-- A machine drops no more than its innermost frame. -/
theorem Aligned.length_le
    (aligned : machine.Aligned setting)
    (goes : Goes setting machine next) :
    machine.frames.length ≤ next.frames.length + 1 := by
  cases frames : machine.frames with
  | nil => exact Nat.zero_le _
  | cons frame below =>
      obtain ⟨same, -⟩ | ⟨_, _, -, pushed⟩ | ⟨_, -, ticked⟩ | ⟨_, -, left, -⟩ :=
        aligned.goes_cons frames goes
      · rw [same, frames]
        exact Nat.le_succ _
      · simp only [pushed, List.length_cons]
        omega
      · rw [ticked]
        exact Nat.le_succ _
      · rw [left]
        rfl

/-- Frames further up are of no account. -/
theorem event?_eq_none
    {height : Nat}
    (noPush : ¬ (machine.frames.length = height ∧ next.frames.length = height + 1))
    (noHand : ¬ (machine.frames.length = height + 1 ∧ next.frames.length = height)) :
    event? height machine next = none := by
  rw [event?, if_neg noPush, if_neg noHand]

/-- A run from where the frame of a try statement is the innermost one. -/
def Decides
    (body : List StmtId) (clauses : List CatchClause) (final id : StmtId) (below : List Frame)
    (machine : Machine) (log : List Event) (last : Machine) : Prop :=
  ∀ frame,
    machine.frames = frame :: below →
    frame.node = .statement id →
    Open clauses frame machine.incoming →
    Finishes body clauses final below frame machine.incoming log last

/-- A run from where a try statement waits for what the frame above its own delivers. -/
def Hears
    (body : List StmtId) (clauses : List CatchClause) (final id : StmtId) (below : List Frame)
    (machine : Machine) (log : List Event) (last : Machine) : Prop :=
  ∀ above child stay,
    machine.frames = above ++ child :: stay :: below →
    stay.node = .statement id →
    ∃ ended rest,
      log = .handed ended :: rest ∧
        child.node.Delivers ended ∧
        (Awaits clauses stay ended →
          Finishes body clauses final below stay (some ended) rest last)

/-- A try statement that is done right away is behind its final block. -/
theorem Decides.done
    (isGuarded : setting.tree.stmt? id = some ⟨.guarded body clauses (some final), span⟩)
    (goes : Goes setting machine last)
    (shorter : last.frames.length < below.length + 1) :
    Decides body clauses final id below machine [] last := by
  intro frame frames isNode isOpen
  obtain ⟨same, -⟩ | ⟨isLast, left, handed⟩ | ⟨-, stay, node, pushed, -⟩ :=
    goes.guarded frames isNode isGuarded isOpen
  · rw [same, frames, List.length_cons] at shorter
    omega
  · exact ⟨left, by rw [if_pos isLast]; exact ⟨rfl, handed⟩⟩
  · simp only [pushed, List.length_cons] at shorter
    omega

/-- A try statement that waits is not done right away. -/
theorem Hears.done
    (aligned : machine.Aligned setting)
    (goes : Goes setting machine last)
    (shorter : last.frames.length < below.length + 1) :
    Hears body clauses final id below machine [] last := by
  intro above child stay frames _
  have most := aligned.length_le goes
  simp only [frames, List.length_append, List.length_cons] at most
  omega

/-- A try statement goes on with the part that follows and waits for it. -/
theorem Decides.goesOn
    (isGuarded : setting.tree.stmt? id = some ⟨.guarded body clauses (some final), span⟩)
    (goes : Goes setting machine next)
    (longer : below.length + 1 ≤ next.frames.length)
    (truthful : ∀ state node ended,
      [.pushed state node, .handed ended] <:+:
        (event? (below.length + 1) machine next).toList ++ log →
      Truthful clauses node ended)
    (decides : Decides body clauses final id below next log last)
    (hears : Hears body clauses final id below next log last) :
    Decides body clauses final id below machine
      ((event? (below.length + 1) machine next).toList ++ log) last := by
  intro frame frames isNode isOpen
  obtain ⟨same, handed⟩ | ⟨-, left, -⟩ | ⟨unfinished, stay, node, pushed, stays, follows⟩ :=
    goes.guarded frames isNode isGuarded isOpen
  · rw [event?_eq_none (by simp [same, frames]) (by simp [same, frames])]
    rw [← handed] at isOpen ⊢
    exact decides frame (same.trans frames) isNode isOpen
  · rw [left] at longer
    omega
  · obtain ⟨ended, rest, rfl, delivers, finishes⟩ :=
      hears [] _ stay pushed (stays.1.trans isNode)
    have seen :
        event? (below.length + 1) machine next = some (.pushed stay.state node) := by
      rw [event?, if_pos (by simp [frames, pushed]), pushed]
      rfl
    rw [seen] at truthful ⊢
    exact Finishes.before unfinished follows delivers
      (truthful _ _ _ ⟨[], rest, rfl⟩) finishes

/-- A try statement goes on waiting until the frame above its own is done. -/
theorem Hears.goesOn
    (aligned : machine.Aligned setting)
    (goes : Goes setting machine next)
    (decides : Decides body clauses final id below next log last)
    (hears : Hears body clauses final id below next log last) :
    Hears body clauses final id below machine
      ((event? (below.length + 1) machine next).toList ++ log) last := by
  intro above child stay frames isNode
  cases above with
  | nil =>
      obtain ⟨same, handed⟩ | ⟨other, pushedChild, stays, pushed⟩ | ⟨other, stays, ticked⟩ |
          ⟨ended, delivers, left, handed⟩ :=
        aligned.goes_cons frames goes
      · rw [event?_eq_none (by simp [same, frames]) (by simp [same, frames])]
        exact hears [] child stay (same.trans frames) isNode
      · rw [event?_eq_none (by simp [frames]) (by simp [frames, pushed]; omega)]
        exact stays.1 ▸ hears [pushedChild] other stay pushed isNode
      · rw [event?_eq_none (by simp [frames]) (by simp [frames, ticked])]
        exact stays.1 ▸ hears [] other stay ticked isNode
      · have seen :
            event? (below.length + 1) machine next = some (.handed ended) := by
          rw [event?, if_neg (by simp [frames]), if_pos (by simp [frames, left]), handed]
          rfl
        rw [seen]
        refine ⟨ended, log, rfl, delivers, fun awaits => ?_⟩
        rw [← handed]
        exact decides stay left isNode (by rw [handed]; exact awaits)
  -- The frame above the one of the try statement is not the innermost and stays.
  | cons top above =>
      have noEvent :
          event? (below.length + 1) machine next = none :=
        event?_eq_none (by simp [frames]; omega) (by simp [frames]; omega)
      rw [noEvent]
      obtain ⟨same, -⟩ | ⟨other, pushedChild, -, pushed⟩ | ⟨other, -, ticked⟩ |
          ⟨_, -, left, -⟩ :=
        aligned.goes_cons frames goes
      · exact hears (top :: above) child stay (same.trans frames) isNode
      · exact hears (pushedChild :: other :: above) child stay pushed isNode
      · exact hears (other :: above) child stay ticked isNode
      · exact hears above child stay left isNode

/-- A try statement runs the parts that are due, then its final block, and is done. -/
theorem RunsOut.finishes
    (runs : RunsOut setting (below.length + 1) machine log last)
    (isGuarded : setting.tree.stmt? id = some ⟨.guarded body clauses (some final), span⟩)
    (aligned : machine.Aligned setting)
    (truthful : ∀ state node ended,
      [.pushed state node, .handed ended] <:+: log → Truthful clauses node ended) :
    Decides body clauses final id below machine log last ∧
      Hears body clauses final id below machine log last := by
  induction runs with
  | done goes shorter =>
      exact ⟨Decides.done isGuarded goes shorter, Hears.done aligned goes shorter⟩
  | goesOn goes longer _ inductionHypothesis =>
      obtain ⟨decides, hears⟩ :=
        inductionHypothesis (aligned.goes goes) fun state node ended seen =>
          truthful state node ended (seen.trans (List.suffix_append _ _).isInfix)
      exact ⟨Decides.goesOn isGuarded goes longer truthful decides hears,
        Hears.goesOn aligned goes decides hears⟩

/-- The frame of a try statement counts a step first. -/
theorem RunsOut.entered
    {act : UInt32}
    (runs : RunsOut setting (below.length + 1) machine log last)
    (frames : machine.frames = .enter (.statement id) act :: below)
    (fresh : machine.incoming = none)
    (aligned : machine.Aligned setting) :
    ∃ next : Machine,
      next.frames = { Frame.enter (.statement id) act with state := 1 } :: below ∧
        next.incoming = none ∧
        next.Aligned setting ∧
        RunsOut setting (below.length + 1) next log last := by
  have step :
      Step.ofFrame setting (.enter (.statement id) act) machine.incoming =
        pure (.tick { Frame.enter (.statement id) act with state := 1 }) := rfl
  induction runs with
  | done goes shorter =>
      obtain ⟨ticked, turn, tickedFrames, waiting⟩ := advance_tick frames step
      obtain ⟨same, -⟩ | rfl := goes.of_turn (.inr turn)
      · rw [same, frames, List.length_cons] at shorter
        omega
      · rw [tickedFrames, List.length_cons] at shorter
        omega
  | goesOn goes _ runs inductionHypothesis =>
      obtain ⟨ticked, turn, tickedFrames, waiting⟩ := advance_tick frames step
      obtain ⟨same, handed⟩ | rfl := goes.of_turn (.inr turn)
      · rw [event?_eq_none (by simp [same, frames]) (by simp [same, frames])]
        exact inductionHypothesis (same.trans frames) (handed.trans fresh) (aligned.goes goes)
          (handed ▸ step)
      · rw [event?_eq_none (by simp [tickedFrames, frames]) (by simp [tickedFrames, frames])]
        exact ⟨_, tickedFrames, waiting, aligned.goes goes, runs⟩

/--
The final block of a try statement is run once on every way out, behind all that
the body, the clauses and the handler run, and decides what the statement ends
with if it does not end normally itself.
-/
theorem final_runs_once
    {act : UInt32}
    (reached : machine.Reached setting)
    (frames : machine.frames = .enter (.statement id) act :: below)
    (fresh : machine.incoming = none)
    (isGuarded : setting.tree.stmt? id = some ⟨.guarded body clauses (some final), span⟩)
    (runs : RunsOut setting (below.length + 1) machine log last)
    (truthful : ∀ state node ended,
      [.pushed state node, .handed ended] <:+: log → Truthful clauses node ended) :
    ∃ parts held ended,
      Tried body clauses none 0 parts held ∧
        (∀ part ∈ parts, part.state ≠ 9) ∧
        log = (parts ++ [(⟨9, .statement final, ended⟩ : Episode)]).flatMap Episode.events ∧
        last.frames = below ∧
        last.incoming = some (if ended.isAbrupt then ended else held) := by
  obtain ⟨next, nextFrames, waiting, aligned, runs⟩ := runs.entered frames fresh reached.aligned
  obtain ⟨left, rest⟩ :=
    (runs.finishes isGuarded aligned truthful).1 _ nextFrames rfl (by rw [waiting]; rfl)
  rw [if_neg (by decide : (1 : UInt32) ≠ 9), waiting] at rest
  obtain ⟨parts, held, ended, tried, seen, handed⟩ := rest
  exact ⟨parts, held, ended, tried, tried.state_ne, seen, left, handed⟩

end Runs

/-- A boolean clause is polled behind each statement of the body; the second time it holds. -/
def polledTokens : TokenList :=
  Spelled.program
    [ -- int main() { int x = 0;
      mark .intKw, name "main", mark .openPar, mark .closePar, mark .openBlock,
      mark .intKw, name "x", mark .assign, word .number "0", mark .semicolon,
      -- try { x = 1; x = 2; }
      mark .tryKw, mark .openBlock,
      name "x", mark .assign, word .number "1", mark .semicolon,
      name "x", mark .assign, word .number "2", mark .semicolon, mark .closeBlock,
      -- catch (x == 2) { return 5; }
      mark .catchKw, mark .openPar, name "x", mark .equal, word .number "2", mark .closePar,
      mark .openBlock, mark .returnKw, word .number "5", mark .semicolon, mark .closeBlock,
      -- finally { x = 3; } return x; }
      mark .finallyKw, mark .openBlock,
      name "x", mark .assign, word .number "3", mark .semicolon, mark .closeBlock,
      mark .returnKw, name "x", mark .semicolon, mark .closeBlock]

/-- What the frame of the try statement sees. -/
def polledLog : List Event :=
  [.pushed 1 (.statement ⟨1⟩), .handed .normal,
    .pushed 3 (.expression ⟨9⟩ .value), .handed (.value (.bool false)),
    .pushed 1 (.statement ⟨2⟩), .handed .normal,
    .pushed 3 (.expression ⟨9⟩ .value), .handed (.value (.bool true)),
    .pushed 7 (.statement ⟨4⟩), .handed (.returned (.int 5)),
    .pushed 9 (.statement ⟨6⟩), .handed .normal]

/-- The handler returns, the final block runs behind it, and the statement is done. -/
theorem final_runs_once_polled :
    let setting := Spelled.setting polledTokens
    let machine := ((Spelled.started polledTokens ⟨0⟩).runFor setting 9 none).2
    let below := machine.frames.tail
    let body : List StmtId := [⟨1⟩, ⟨2⟩]
    let clauses : List CatchClause := [⟨.condition, ⟨9⟩, ⟨4⟩, Span.none⟩]
    (compile .standard polledTokens).isOk = true ∧
      machine.Reached setting ∧
      machine.frames = .enter (.statement ⟨7⟩) 1 :: below ∧
      machine.incoming = none ∧
      setting.tree.stmt? ⟨7⟩ = some ⟨.guarded body clauses (some ⟨6⟩), Span.none⟩ ∧
      ∃ last,
        RunsOut setting (below.length + 1) machine polledLog last ∧
        (∀ state node ended,
          [.pushed state node, .handed ended] <:+: polledLog → Truthful clauses node ended) ∧
        ∃ parts held ended,
          Tried body clauses none 0 parts held ∧
            (∀ part ∈ parts, part.state ≠ 9) ∧
            polledLog =
              (parts ++ [(⟨9, .statement ⟨6⟩, ended⟩ : Episode)]).flatMap Episode.events ∧
            last.frames = below ∧
            last.incoming = some (if ended.isAbrupt then ended else held) ∧
            last.incoming = some (.returned (.int 5)) := by
  intro setting machine below body clauses
  have reached : machine.Reached setting :=
    ⟨_, _, (goes_runFor 9 none).1 (by decide +kernel)⟩
  have frames : machine.frames = .enter (.statement ⟨7⟩) 1 :: below := by decide +kernel
  have fresh : machine.incoming = none := by decide +kernel
  have isGuarded :
      setting.tree.stmt? ⟨7⟩ = some ⟨.guarded body clauses (some ⟨6⟩), Span.none⟩ := by
    decide +kernel
  have watched :
      (watch setting (below.length + 1) 60 machine).map (fun seen => (seen.1, seen.2.incoming)) =
        some (polledLog, some (.returned (.int 5))) := by
    decide +kernel
  obtain ⟨⟨log, last⟩, watched, same⟩ := Option.map_eq_some_iff.mp watched
  obtain ⟨rfl, handed⟩ := Prod.mk.inj same
  have runs := RunsOut.of_watch watched
  have truthful : ∀ state node ended,
      [.pushed state node, .handed ended] <:+: polledLog → Truthful clauses node ended := by
    rintro state node ended seen clause member - rfl tested rfl
    simp [polledLog, List.infix_cons_iff] at seen
    rcases seen with ⟨-, -, rfl⟩ | ⟨-, -, rfl⟩
    · exact ⟨_, rfl⟩
    · exact ⟨_, rfl⟩
  obtain ⟨parts, held, ended, tried, others, parted, left, done⟩ :=
    final_runs_once reached frames fresh isGuarded runs truthful
  exact ⟨by decide +kernel, reached, frames, fresh, isGuarded, last, runs, truthful,
    parts, held, ended, tried, others, parted, left, done, handed⟩

end Machine

end BotScript
