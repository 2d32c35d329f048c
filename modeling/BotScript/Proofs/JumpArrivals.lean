import BotScript.Proofs.StructuredRuns

namespace BotScript

open Spelled (word mark name)

/-!
# Where jumps arrive

A jump passes one statement after the other, from the innermost one, and gets to
the innermost loop or switch that takes it.  A try statement on the way holds the
jump back while its final block runs; only a final block that ends abruptly can
keep the jump from going on.
-/

/-- A jump has a label or none. -/
theorem Completion.isAbrupt_of_jump?
    {completion : Completion}
    {jump : Jump}
    (isJump : completion.jump? = some jump) :
    completion.isAbrupt = true := by
  cases completion <;> first | rfl | cases isJump

/-- Whether the statement of a frame is a loop or switch that takes a jump. -/
def Frame.takes (tree : Tree) (frame : Frame) (jump : Jump) : Bool :=
  match frame.node with
  | .statement id => (tree.stmt id).kind.breakable?.any fun breakable => breakable.takes jump
  | _ => false

/-- A frame of a statement takes the jumps that its loop or switch takes. -/
theorem Frame.takes_statement
    {tree : Tree}
    {frame : Frame}
    {id : StmtId}
    (isNode : frame.node = .statement id)
    (jump : Jump) :
    frame.takes tree jump =
      (tree.stmt id).kind.breakable?.any fun breakable => breakable.takes jump := by
  rw [Frame.takes, isNode]

/-- The frame of a statement that a jump passes. -/
structure Frame.Passed (tree : Tree) (jump : Jump) (frame : Frame) : Prop where
  isStatement : ∃ id, frame.node = .statement id
  passes : frame.takes tree jump = false

/-- What a loop or switch does with a jump that it takes: it ends, or goes on to its next round. -/
inductive Jump.Taken (jump : Jump) (frame : Frame) : Move → Prop where
  | leaves :
      jump.isContinue = false →
      Taken jump frame (.complete .normal)
  | counts
      {stay : Frame} :
      jump.isContinue = true →
      stay.node = frame.node →
      Taken jump frame (.tick stay)
  | evaluates
      {stay : Frame}
      {id : ExprId} :
      jump.isContinue = true →
      stay.node = frame.node →
      Taken jump frame (Step.pushExpression stay id .value)

namespace Step

variable {setting : Setting} {frame : Frame} {node : Stmt} {completion : Completion} {jump : Jump}

/-- What is abrupt does not settle. -/
theorem settle_abrupt
    (abrupt : completion.isAbrupt = true) :
    settle (some completion) = throw (.propagate completion) := by
  simp [settle, abrupt]

/-- A loop that takes a jump goes on after it if it is one to its next round. -/
theorem goesOn_taken
    {label : Option String}
    (isJump : completion.jump? = some jump)
    (takes : Breakable.takes ⟨label, true⟩ jump = true) :
    goesOn label (some completion) = pure jump.isContinue := by
  cases completion with
  | breakTo label =>
      cases isJump
      rw [Breakable.takes_loop] at takes
      simp [goesOn, takes]
  | continueTo label =>
      cases isJump
      rw [Breakable.takes_loop] at takes
      simp [goesOn, takes]
  | _ => cases isJump

/-- A loop hands on the jumps that it does not take. -/
theorem goesOn_passed
    {label : Option String}
    (isJump : completion.jump? = some jump)
    (passes : Breakable.takes ⟨label, true⟩ jump = false) :
    goesOn label (some completion) = throw (.propagate completion) := by
  cases completion with
  | breakTo label =>
      cases isJump
      rw [Breakable.takes_loop] at passes
      simp [goesOn, passes]
  | continueTo label =>
      cases isJump
      rw [Breakable.takes_loop] at passes
      simp [goesOn, passes]
  | _ => cases isJump

/-- What is thrown is not followed by anything. -/
theorem throw_bind
    {α β : Type}
    (interrupt : Interrupt)
    (next : α → Step β) :
    (throw interrupt >>= next : Step β) = throw interrupt :=
  rfl

/-- A statement other than a try statement hands on the jumps that it does not take. -/
theorem entered_passed
    (isJump : completion.jump? = some jump)
    (runs : node.kind.runsPart frame.state = true)
    (passes : ∀ breakable ∈ node.kind.breakable?, breakable.takes jump = false)
    (isOther : ∀ body clauses final, node.kind ≠ .guarded body clauses final) :
    entered setting frame node (some completion) = throw (.propagate completion) := by
  have abrupt := Completion.isAbrupt_of_jump? isJump
  unfold entered
  cases isKind : node.kind with
  | block parts =>
      dsimp only
      rw [settle_abrupt abrupt, throw_bind]
  | branch condition whenTrue whenFalse =>
      rw [isKind] at runs
      dsimp only
      split
      · next state => rw [state] at runs; cases runs
      · next state => rw [state] at runs; cases runs
      · rw [settle_abrupt abrupt, throw_bind]
  | whileLoop label condition body =>
      rw [isKind] at runs passes
      dsimp only
      split
      · next state => rw [state] at runs; cases runs
      · next state => rw [state] at runs; cases runs
      · rw [goesOn_passed isJump (passes _ rfl), throw_bind]
  | doLoop label body condition =>
      rw [isKind] at runs passes
      have state : frame.state = 2 := by simpa [StmtKind.runsPart] using runs
      simp only [state]
      rw [goesOn_passed isJump (passes _ rfl), throw_bind]
  | forLoop label initial condition steps body =>
      rw [isKind] at runs passes
      have state : frame.state = 4 := by simpa [StmtKind.runsPart] using runs
      simp only [forLoop, state]
      rw [goesOn_passed isJump (passes _ rfl), throw_bind]
  | repeatLoop label count body =>
      rw [isKind] at runs passes
      dsimp only
      unfold repeatLoop
      split
      · next state => rw [state] at runs; cases runs
      · next state => rw [state] at runs; cases runs
      · next state => rw [state] at runs; cases runs
      · rw [goesOn_passed isJump (passes _ rfl), throw_bind]
  | switchOn value cases body =>
      rw [isKind] at runs passes
      dsimp only
      unfold switchOn
      split
      · next state => rw [state] at runs; cases runs
      · next state => rw [state] at runs; cases runs
      · split
        · next isBreak =>
          cases isBreak
          cases isJump
          cases passes _ rfl
        · rw [settle_abrupt abrupt, throw_bind]
  | guarded body clauses final => exact absurd isKind (isOther body clauses final)
  | _ =>
      rw [isKind] at runs
      cases runs

/-- A loop or switch that takes a jump makes one of its moves. -/
theorem entered_taken
    {breakable : Breakable}
    (isJump : completion.jump? = some jump)
    (runs : node.kind.runsPart frame.state = true)
    (isBreakable : node.kind.breakable? = some breakable)
    (takes : breakable.takes jump = true) :
    ∃ move, jump.Taken frame move ∧ entered setting frame node (some completion) = pure move := by
  have turned (stay : Frame) (same : stay.node = frame.node) :
      ∃ move, jump.Taken frame move ∧
        (if jump.isContinue = true then pure (.tick stay) else Step.done) = pure move := by
    cases isContinue : jump.isContinue with
    | true => exact ⟨_, .counts isContinue same, rfl⟩
    | false => exact ⟨_, .leaves isContinue, rfl⟩
  unfold entered
  cases isKind : node.kind with
  | whileLoop label condition body =>
      rw [isKind] at runs isBreakable
      cases isBreakable
      dsimp only
      split
      · next state => rw [state] at runs; cases runs
      · next state => rw [state] at runs; cases runs
      · rw [goesOn_taken isJump takes, pure_bind]
        exact turned _ rfl
  | doLoop label body condition =>
      rw [isKind] at runs isBreakable
      cases isBreakable
      have state : frame.state = 2 := by simpa [StmtKind.runsPart] using runs
      simp only [state]
      rw [goesOn_taken isJump takes, pure_bind]
      exact turned _ rfl
  | forLoop label initial condition steps body =>
      rw [isKind] at runs isBreakable
      cases isBreakable
      have state : frame.state = 4 := by simpa [StmtKind.runsPart] using runs
      simp only [forLoop, state]
      rw [goesOn_taken isJump takes, pure_bind]
      cases isContinue : jump.isContinue with
      | false => exact ⟨_, .leaves isContinue, rfl⟩
      | true =>
          rw [if_pos rfl]
          unfold forSteps
          split
          · refine ⟨_, ?_, rfl⟩
            exact .evaluates isContinue rfl
          · refine ⟨_, ?_, rfl⟩
            exact .counts isContinue rfl
  | repeatLoop label count body =>
      rw [isKind] at runs isBreakable
      cases isBreakable
      dsimp only
      unfold repeatLoop
      split
      · next state => rw [state] at runs; cases runs
      · next state => rw [state] at runs; cases runs
      · next state => rw [state] at runs; cases runs
      · rw [goesOn_taken isJump takes, pure_bind]
        exact turned _ rfl
  | switchOn value cases body =>
      rw [isKind] at runs isBreakable
      cases isBreakable
      obtain rfl : completion = .breakTo none := by
        cases completion with
        | breakTo label => cases isJump; cases label <;> first | rfl | cases takes
        | continueTo label => cases isJump; cases label <;> cases takes
        | _ => cases isJump
      cases isJump
      dsimp only
      unfold switchOn
      split
      · next state => rw [state] at runs; cases runs
      · next state => rw [state] at runs; cases runs
      · exact ⟨_, .leaves rfl, rfl⟩
  | _ =>
      rw [isKind] at isBreakable
      cases isBreakable

/-- A try statement holds a jump of its body or of its handler back. -/
theorem entered_guarded
    {body : List StmtId}
    {clauses : List CatchClause}
    {final : Option StmtId}
    (isJump : completion.jump? = some jump)
    (isKind : node.kind = .guarded body clauses final)
    (runs : node.kind.runsPart frame.state = true) :
    entered setting frame node (some completion) =
      if frame.state = 9 then pure (.complete completion)
      else endWith frame final completion := by
  have abrupt := Completion.isAbrupt_of_jump? isJump
  rw [isKind] at runs
  unfold entered
  rw [isKind]
  have state : frame.state = 1 ∨ frame.state = 7 ∨ frame.state = 9 := by
    simpa [StmtKind.runsPart, or_assoc] using runs
  obtain state | state | state := state
  · have ended : bodyEnded frame body clauses final (some completion) =
        endWith frame final completion := by
      cases completion with
      | breakTo label => rfl
      | continueTo label => rfl
      | _ => cases isJump
    simp [guarded, state, ended]
  · simp [guarded, state, abruptOr, abrupt]
  · simp [guarded, state, abruptOr, abrupt]

end Step

/-! ## Turns -/

section Turns

variable {setting : Setting} {frame : Frame} {id : StmtId} {completion : Completion} {jump : Jump}
  {memory : Memory}

/-- A statement that runs a part is one of the program, and has been entered. -/
theorem StmtKind.runsPart_found
    {tree : Tree}
    (runs : (tree.stmt id).kind.runsPart frame.state = true) :
    ∃ node, tree.stmt? id = some node ∧ tree.stmt id = node := by
  cases found : tree.stmt? id with
  | none =>
      rw [Tree.stmt, found] at runs
      cases runs
  | some node => exact ⟨node, rfl, by simp [Tree.stmt, found]⟩

/-- A statement that runs a part has been entered. -/
theorem StmtKind.ne_zero_of_runsPart
    {kind : StmtKind}
    {state : UInt32}
    (runs : kind.runsPart state = true) :
    state ≠ 0 := by
  rintro rfl
  cases kind <;> cases runs

/-- The step of a statement that runs a part. -/
theorem Step.ofFrame_statement
    (isNode : frame.node = .statement id)
    (runs : (setting.tree.stmt id).kind.runsPart frame.state = true)
    (incoming : Option Completion) :
    Step.ofFrame setting frame incoming =
      Step.entered setting frame (setting.tree.stmt id) incoming := by
  obtain ⟨node, found, isStmt⟩ := StmtKind.runsPart_found runs
  have isEntered := StmtKind.ne_zero_of_runsPart runs
  rw [Step.ofFrame, isNode]
  dsimp only
  unfold Step.statement
  split
  · next state => exact absurd state isEntered
  · rw [found, isStmt]
    rfl

end Turns

/-- A try statement runs its final block and holds a completion back. -/
structure Frame.HoldsBack (tree : Tree) (completion : Completion) (frame : Frame) : Prop where
  isGuarded :
    ∃ id body clauses final,
      frame.node = .statement id ∧ (tree.stmt id).kind = .guarded body clauses (some final)
  state : frame.state = 9
  pending : frame.pending = some completion

namespace Machine

variable {setting : Setting} {machine next last : Machine} {completion : Completion} {jump : Jump}
  {frame taker : Frame} {above below goal : List Frame}

/--
A completion that makes a jump is on its way through some frames to the innermost
of the frames at which it has its goal: either it is handed to the innermost frame
of the machine, or a try statement holds it back while its final block runs.
-/
inductive Underway (setting : Setting) (completion : Completion) (jump : Jump)
    (goal : List Frame) : List Frame → Machine → Prop where
  | inHand
      {above : List Frame}
      {machine : Machine} :
      machine.frames = above ++ goal →
      machine.incoming = some completion →
      (∀ frame ∈ above, frame.Passed setting.tree jump) →
      Underway setting completion jump goal above machine
  | heldBack
      (inner : List Frame)
      {above : List Frame}
      {guard : Frame}
      {machine : Machine} :
      machine.frames = inner ++ guard :: (above ++ goal) →
      guard.HoldsBack setting.tree completion →
      (∀ frame ∈ above, frame.Passed setting.tree jump) →
      Underway setting completion jump goal above machine

/-- A final block has ended abruptly while its try statement holds a completion back. -/
def Overridden (setting : Setting) (completion : Completion) (goal : List Frame)
    (machine : Machine) : Prop :=
  ∃ guard above other,
    machine.frames = guard :: (above ++ goal) ∧
      guard.HoldsBack setting.tree completion ∧
      machine.incoming = some other ∧ other.isAbrupt = true

/-- A loop or switch has taken a jump: it has ended normally, or goes on to its next round. -/
def Absorbed (jump : Jump) (taker : Frame) (below : List Frame) (next : Machine) : Prop :=
  if jump.isContinue then
    next.incoming = none ∧
      ∃ stay, stay.node = taker.node ∧
        (next.frames = stay :: below ∨
          ∃ id, next.frames = .enter (.expression id .value) stay.act :: stay :: below)
  else next.frames = below ∧ next.incoming = some .normal

/-- A jump is only handed to statements that run a part. -/
theorem Flowing.runsPart
    (flowing : machine.Flowing setting)
    (frames : machine.frames = frame :: below)
    (isIncoming : machine.incoming = some completion)
    (isJump : completion.jump? = some jump) :
    ∃ id, frame.node = .statement id ∧
      (setting.tree.stmt id).kind.runsPart frame.state = true := by
  have aims := (flowing.handed frame below frames).aims completion isIncoming
  cases isNode : frame.node with
  | statement id =>
      refine ⟨id, rfl, ?_⟩
      rw [Tree.around_cons isNode, Frame.inner] at aims
      cases runs : (setting.tree.stmt id).kind.runsPart frame.state with
      | true => rfl
      | false =>
          rw [runs, if_neg Bool.false_ne_true] at aims
          simp [aims.jump?_eq_none] at isJump
  | _ =>
      rw [Tree.around_cons_other fun id => by simp [isNode]] at aims
      simp [aims.jump?_eq_none] at isJump

/-- A jump that a statement does not take goes on, or is held back by it. -/
theorem Flowing.passed
    (flowing : machine.Flowing setting)
    (frames : machine.frames = frame :: (above ++ goal))
    (isIncoming : machine.incoming = some completion)
    (isJump : completion.jump? = some jump)
    (passes : frame.takes setting.tree jump = false)
    (passed : ∀ frame ∈ above, frame.Passed setting.tree jump) :
    ∃ next, machine.advance setting = .moved next ∧
      next.Underway setting completion jump goal above := by
  obtain ⟨id, isNode, runs⟩ := flowing.runsPart frames isIncoming isJump
  have step := Step.ofFrame_statement isNode runs machine.incoming
  rw [isIncoming] at step
  have leaves
      (step : Step.ofFrame setting frame (some completion) = pure (.complete completion)) :
      ∃ next, machine.advance setting = .moved next ∧
        next.Underway setting completion jump goal above := by
    obtain ⟨left, turn, leftFrames, handed⟩ := advance_complete frames (isIncoming ▸ step)
    exact ⟨left, turn, .inHand leftFrames handed passed⟩
  by_cases isGuarded : ∃ body clauses final, (setting.tree.stmt id).kind = .guarded body clauses final
  · obtain ⟨body, clauses, final, isKind⟩ := isGuarded
    rw [Step.entered_guarded isJump isKind runs] at step
    by_cases isFinal : frame.state = 9
    · exact leaves (by rw [step, if_pos isFinal])
    · rw [if_neg isFinal] at step
      cases final with
      | none => exact leaves step
      | some part =>
          obtain ⟨pushed, turn, pushedFrames, -⟩ := advance_push frames (isIncoming ▸ step)
          refine ⟨pushed, turn, .heldBack [_] pushedFrames ⟨?_, rfl, rfl⟩ passed⟩
          exact ⟨id, body, clauses, part, isNode, isKind⟩
  · have isOther : ∀ body clauses final,
        (setting.tree.stmt id).kind ≠ .guarded body clauses final := by
      simpa using isGuarded
    have untaken : ∀ breakable ∈ (setting.tree.stmt id).kind.breakable?,
        breakable.takes jump = false := by
      rw [Frame.takes_statement isNode] at passes
      intro breakable isBreakable
      simpa [Option.mem_def.mp isBreakable] using passes
    rw [Step.entered_passed isJump runs untaken isOther] at step
    obtain ⟨left, turn, leftFrames, handed⟩ := advance_propagate frames (isIncoming ▸ step)
    exact ⟨left, turn, .inHand leftFrames handed passed⟩

/-- A loop or switch that takes a jump ends or goes on to its next round. -/
theorem Flowing.taken
    (flowing : machine.Flowing setting)
    (frames : machine.frames = taker :: below)
    (isIncoming : machine.incoming = some completion)
    (isJump : completion.jump? = some jump)
    (takes : taker.takes setting.tree jump = true) :
    ∃ next, (machine.advance setting = .moved next ∨ machine.advance setting = .counted next) ∧
      Absorbed jump taker below next := by
  obtain ⟨id, isNode, runs⟩ := flowing.runsPart frames isIncoming isJump
  have step := Step.ofFrame_statement isNode runs machine.incoming
  rw [isIncoming] at step
  rw [Frame.takes_statement isNode] at takes
  cases isBreakable : (setting.tree.stmt id).kind.breakable? with
  | none =>
      rw [isBreakable] at takes
      cases takes
  | some breakable =>
      rw [isBreakable] at takes
      obtain ⟨move, isTaken, isMove⟩ := Step.entered_taken isJump runs isBreakable takes
      rw [isMove, ← isIncoming] at step
      cases isTaken with
      | leaves isBreak =>
          obtain ⟨left, turn, leftFrames, handed⟩ := advance_complete frames step
          refine ⟨left, .inl turn, ?_⟩
          rw [Absorbed, isBreak, if_neg Bool.false_ne_true]
          exact ⟨leftFrames, handed⟩
      | counts isContinue same =>
          obtain ⟨ticked, turn, tickedFrames, waiting⟩ := advance_tick frames step
          refine ⟨ticked, .inr turn, ?_⟩
          rw [Absorbed, isContinue, if_pos rfl]
          exact ⟨waiting, _, same, .inl tickedFrames⟩
      | evaluates isContinue same =>
          obtain ⟨pushed, turn, pushedFrames, waiting⟩ := advance_push frames step
          refine ⟨pushed, .inl turn, ?_⟩
          rw [Absorbed, isContinue, if_pos rfl]
          exact ⟨waiting, _, same, .inr ⟨_, pushedFrames⟩⟩

/-- A final block that does not end abruptly lets what is held back go on. -/
theorem advance_heldBack
    (holds : frame.HoldsBack setting.tree completion)
    (frames : machine.frames = frame :: (above ++ goal))
    (passed : ∀ frame ∈ above, frame.Passed setting.tree jump)
    (smooth : Smooth machine.incoming) :
    ∃ next, machine.advance setting = .moved next ∧
      next.Underway setting completion jump goal above := by
  obtain ⟨id, body, clauses, final, isNode, isKind⟩ := holds.isGuarded
  have runs : (setting.tree.stmt id).kind.runsPart frame.state = true := by
    rw [isKind, holds.state]
    rfl
  have step := Step.ofFrame_statement isNode runs machine.incoming
  have ends :
      Step.entered setting frame (setting.tree.stmt id) machine.incoming =
        pure (.complete completion) := by
    obtain ⟨other, isIncoming, abrupt, -⟩ | ⟨-, isOther⟩ :=
      Step.abruptOr_cases machine.incoming (frame.pending.getD .normal)
    · simp [smooth other isIncoming] at abrupt
    · rw [holds.pending] at isOther
      unfold Step.entered
      rw [isKind]
      simp only [Step.guarded, holds.state, holds.pending]
      exact congrArg (fun ended => (pure (Move.complete ended) : Step Move)) isOther
  obtain ⟨left, turn, leftFrames, handed⟩ := advance_complete frames (step.trans ends)
  exact ⟨left, turn, .inHand leftFrames handed passed⟩

/--
Whatever happens to a machine, a jump stays on its way, until it is taken where it
has its goal, or a final block ends abruptly that holds it back.
-/
theorem Underway.goes
    (aligned : machine.Aligned setting)
    (flowing : machine.Flowing setting)
    (isJump : completion.jump? = some jump)
    (takes : taker.takes setting.tree jump = true)
    (underway : machine.Underway setting completion jump (taker :: below) above)
    (goes : Goes setting machine next) :
    (∃ fewer, next.Underway setting completion jump (taker :: below) fewer) ∨
      (machine.frames = taker :: below ∧ machine.incoming = some completion ∧
        Absorbed jump taker below next) ∨
      machine.Overridden setting completion (taker :: below) := by
  cases underway with
  | inHand frames isIncoming passed =>
      cases above with
      | nil =>
          obtain ⟨known, turn, absorbed⟩ := flowing.taken frames isIncoming isJump takes
          obtain ⟨sameFrames, sameIncoming⟩ | rfl := goes.of_turn turn
          · exact .inl ⟨[], .inHand (sameFrames.trans frames) (sameIncoming.trans isIncoming) passed⟩
          · exact .inr (.inl ⟨frames, isIncoming, absorbed⟩)
      | cons frame above =>
          obtain ⟨here, further⟩ := List.forall_mem_cons.mp passed
          obtain ⟨known, turn, underway⟩ :=
            flowing.passed frames isIncoming isJump here.passes further
          obtain ⟨sameFrames, sameIncoming⟩ | rfl := goes.of_turn (.inl turn)
          · exact .inl ⟨_, .inHand (sameFrames.trans frames) (sameIncoming.trans isIncoming) passed⟩
          · exact .inl ⟨above, underway⟩
  | @heldBack inner _ guard _ frames holds passed =>
      cases inner with
      | nil =>
          by_cases smooth : Smooth machine.incoming
          · obtain ⟨known, turn, underway⟩ := advance_heldBack holds frames passed smooth
            obtain ⟨sameFrames, sameIncoming⟩ | rfl := goes.of_turn (.inl turn)
            · exact .inl ⟨_, .heldBack [] (sameFrames.trans frames) holds passed⟩
            · exact .inl ⟨_, underway⟩
          · simp only [Smooth, not_forall, Bool.not_eq_false] at smooth
            obtain ⟨other, isIncoming, abrupt⟩ := smooth
            exact .inr (.inr ⟨guard, above, other, frames, holds, isIncoming, abrupt⟩)
      | cons frame inner =>
          have rest : machine.frames = frame :: (inner ++ guard :: (above ++ taker :: below)) := frames
          obtain ⟨same, -⟩ | ⟨stay, child, -, nextFrames⟩ | ⟨stay, -, nextFrames⟩ |
            ⟨_, -, nextFrames, -⟩ := aligned.goes_cons rest goes
          · exact .inl ⟨_, .heldBack (frame :: inner) (same.trans frames) holds passed⟩
          · exact .inl ⟨_, .heldBack (child :: stay :: inner) nextFrames holds passed⟩
          · exact .inl ⟨_, .heldBack (stay :: inner) nextFrames holds passed⟩
          · exact .inl ⟨_, .heldBack inner nextFrames holds passed⟩

/-- What has become of a jump when a machine has gone on. -/
inductive Arrived (setting : Setting) (completion : Completion) (jump : Jump) (taker : Frame)
    (below : List Frame) (machine last : Machine) : Prop where
  | underway
      {above : List Frame} :
      last.Underway setting completion jump (taker :: below) above →
      Arrived setting completion jump taker below machine last
  | absorbed
      {before after : Machine} :
      Relation.ReflTransGen (Goes setting) machine before →
      before.frames = taker :: below →
      before.incoming = some completion →
      Goes setting before after →
      Absorbed jump taker below after →
      Relation.ReflTransGen (Goes setting) after last →
      Arrived setting completion jump taker below machine last
  | overridden
      {before : Machine} :
      Relation.ReflTransGen (Goes setting) machine before →
      before.Overridden setting completion (taker :: below) →
      Relation.ReflTransGen (Goes setting) before last →
      Arrived setting completion jump taker below machine last

/-- However far a machine goes, a jump arrives where it has its goal, or is overridden. -/
theorem Underway.arrives
    (structured : setting.tree.Structured)
    (fits : setting.tree.stmts.size < UInt32.size)
    (reached : machine.Reached setting)
    (isJump : completion.jump? = some jump)
    (takes : taker.takes setting.tree jump = true)
    (underway : machine.Underway setting completion jump (taker :: below) above)
    (goes : Relation.ReflTransGen (Goes setting) machine last) :
    Arrived setting completion jump taker below machine last := by
  induction goes with
  | refl => exact .underway underway
  | @tail middle last earlier goes inductionHypothesis =>
      cases inductionHypothesis with
      | underway underway =>
          have reached : middle.Reached setting := by
            obtain ⟨entry, host, start⟩ := reached
            exact ⟨entry, host, start.trans earlier⟩
          obtain ⟨fewer, underway⟩ | ⟨frames, isIncoming, absorbed⟩ | overridden :=
            underway.goes reached.aligned (reached.flowing structured fits) isJump takes goes
          · exact .underway underway
          · exact .absorbed earlier frames isIncoming goes absorbed .refl
          · exact .overridden earlier overridden (.single goes)
      | absorbed start frames isIncoming turn absorbed rest =>
          exact .absorbed start frames isIncoming turn absorbed (rest.tail goes)
      | overridden start overridden rest => exact .overridden start overridden (rest.tail goes)

end Machine

/-- A jump to one of the loops and switches of some frames is taken by one of them. -/
theorem Tree.exists_taker
    {tree : Tree}
    {frames : List Frame}
    {jump : Jump}
    (aims : jump.Aims (tree.around frames)) :
    ∃ above taker below,
      frames = above ++ taker :: below ∧
        (∀ frame ∈ above, frame.Passed tree jump) ∧ taker.takes tree jump = true := by
  induction frames with
  | nil =>
      obtain ⟨_, member, -⟩ := aims
      cases member
  | cons frame frames inductionHypothesis =>
      cases isNode : frame.node with
      | statement id =>
          rw [Tree.around_cons isNode, Frame.inner] at aims
          split at aims
          · cases takes : frame.takes tree jump with
            | true => exact ⟨[], frame, frames, rfl, by simp, takes⟩
            | false =>
                have further : jump.Aims (tree.around frames) := by
                  obtain ⟨breakable, member, isTaker⟩ := aims
                  refine ⟨breakable, (List.mem_append.mp member).resolve_left ?_, isTaker⟩
                  rintro own
                  rw [Frame.takes_statement isNode] at takes
                  simp [Option.mem_toList.mp own, isTaker] at takes
                obtain ⟨above, taker, below, rfl, passed, isTaker⟩ := inductionHypothesis further
                exact ⟨frame :: above, taker, below, rfl,
                  List.forall_mem_cons.mpr ⟨⟨⟨id, isNode⟩, takes⟩, passed⟩, isTaker⟩
          · obtain ⟨_, member, -⟩ := aims
            cases member
      | _ =>
          rw [Tree.around_cons_other fun id => by simp [isNode]] at aims
          obtain ⟨_, member, -⟩ := aims
          cases member

/-- A frame that owns no activation shares that of the frame below it. -/
theorem Stacked.act_parent
    {tree : Tree}
    {outlines : List Outline}
    {frame parent : Frame}
    {below : List Frame}
    (stacked : Stacked tree outlines (frame :: parent :: below))
    (shares : frame.node.ownsActivation = false) :
    frame.act = parent.act := by
  cases stacked with
  | part _ _ same => exact same
  | owner owns => simp [shares] at owns

/-- Statements read their variables where the frame below them does. -/
theorem Stacked.act_eq
    {tree : Tree}
    {outlines : List Outline}
    {above below : List Frame}
    {taker : Frame}
    (stacked : Stacked tree outlines (above ++ taker :: below))
    (statements : ∀ frame ∈ above, ∃ id, frame.node = .statement id) :
    ∀ frame ∈ above, frame.act = taker.act := by
  induction above generalizing outlines with
  | nil => simp
  | cons frame above inductionHypothesis =>
      obtain ⟨here, further⟩ := List.forall_mem_cons.mp statements
      have rest := inductionHypothesis stacked.tail further
      refine List.forall_mem_cons.mpr ⟨?_, rest⟩
      obtain ⟨id, isNode⟩ := here
      have shares : frame.node.ownsActivation = false := by
        rw [isNode]
        rfl
      cases above with
      | nil => exact stacked.act_parent shares
      | cons parent above => exact (stacked.act_parent shares).trans (rest parent (by simp))

/-- How a function ends behind its body. -/
inductive FunctionEnds (tree : Tree) (id : FuncId) : Completion → Option Completion → Prop where
  | returns
      {value : Value} :
      FunctionEnds tree id (.returned value) (some (.value value))
  | throws
      {error : RuntimeError} :
      FunctionEnds tree id (.thrown error) (some (.thrown error))
  | ends
      {function : FunctionDef} :
      tree.function? id = some function →
      function.result.isVoid = true →
      FunctionEnds tree id .normal (some (.value .void))

/-- What a function makes of the end of its body. -/
theorem Step.function_ended
    {setting : Setting}
    {frame : Frame}
    {id : FuncId}
    {function : FunctionDef}
    (found : setting.tree.function? id = some function)
    (isEntered : frame.state ≠ 0) :
    (∀ value, Step.function setting frame id (some (.returned value)) =
        pure (.complete (.value value))) ∧
      (∀ error, Step.function setting frame id (some (.thrown error)) =
        pure (.complete (.thrown error))) ∧
      (function.result.isVoid = true →
        Step.function setting frame id (some .normal) = pure (.complete (.value .void))) := by
  refine ⟨?_, ?_, ?_⟩
  · intro value
    unfold Step.function
    rw [found]
    split
    · next state => exact absurd state isEntered
    · rfl
  · intro error
    unfold Step.function
    rw [found]
    split
    · next state => exact absurd state isEntered
    · rfl
  · intro isVoid
    unfold Step.function
    rw [found]
    split
    · next state => exact absurd state isEntered
    · exact if_pos isVoid

namespace Machine

variable {setting : Setting} {machine : Machine}

/-- A function ends as its body has ended. -/
theorem Flowing.functionEnds
    {frame : Frame}
    {below : List Frame}
    {id : FuncId}
    {completion : Completion}
    (flowing : machine.Flowing setting)
    (known : ∃ function, setting.tree.function? id = some function)
    (frames : machine.frames = frame :: below)
    (isNode : frame.node = .function id)
    (isIncoming : machine.incoming = some completion) :
    ∃ next, machine.advance setting = .moved next ∧ next.frames = below ∧
      FunctionEnds setting.tree id completion next.incoming := by
  obtain ⟨function, found⟩ := known
  have handed := flowing.handed frame below frames
  obtain ⟨isEntered, isEnd, normal⟩ := handed.bodies id isNode completion isIncoming
  have aims := handed.aims completion isIncoming
  rw [Tree.around_cons_other fun id => by simp [isNode]] at aims
  have isNoJump := aims.jump?_eq_none
  have step : Step.ofFrame setting frame machine.incoming =
      Step.function setting frame id (some completion) := by
    rw [Step.ofFrame, isNode, isIncoming]
  obtain ⟨returns, throws, ends⟩ := Step.function_ended found isEntered
  have leaves {ended : Completion}
      (isStep : Step.function setting frame id (some completion) = pure (.complete ended))
      (asBody : FunctionEnds setting.tree id completion (some ended)) :
      ∃ next, machine.advance setting = .moved next ∧ next.frames = below ∧
        FunctionEnds setting.tree id completion next.incoming := by
    obtain ⟨next, turn, nextFrames, handed⟩ := advance_complete frames (step.trans isStep)
    exact ⟨next, turn, nextFrames, handed ▸ asBody⟩
  cases completion with
  | returned value => exact leaves (returns value) .returns
  | thrown error => exact leaves (throws error) .throws
  | normal =>
      have mayEnd := normal rfl
      rw [Tree.MayEnd, isNode] at mayEnd
      have isVoid := mayEnd function found
      exact leaves (ends isVoid) (.ends found isVoid)
  | value => cases isEnd
  | place => cases isEnd
  | breakTo => cases isNoJump
  | continueTo => cases isNoJump

/-- The flow of control of a machine is structured. -/
structure Structured (setting : Setting) (machine : Machine) : Prop where
  /-- A function ends with what its body returns or throws, or without a value if it has none. -/
  functions :
    ∀ frame below id, machine.frames = frame :: below → frame.node = .function id →
      ∀ completion, machine.incoming = some completion →
        ∃ next, machine.advance setting = .moved next ∧ next.frames = below ∧
          FunctionEnds setting.tree id completion next.incoming
  /-- No jump gets to a frame that owns an activation. -/
  owners :
    ∀ frame below, machine.frames = frame :: below → frame.node.ownsActivation = true →
      ∀ completion, machine.incoming = some completion → completion.jump? = none
  /--
  A jump has its goal at the innermost loop or switch of its activation that takes
  it.  With the next turn the jump is there, or it gets nearer, or a try statement
  on the way holds it back while its final block runs.
  -/
  jumps :
    ∀ completion jump, machine.incoming = some completion → completion.jump? = some jump →
      ∃ above taker below,
        machine.frames = above ++ taker :: below ∧
          (∀ frame ∈ above, frame.Passed setting.tree jump ∧ frame.act = taker.act) ∧
          taker.takes setting.tree jump = true ∧
          (∃ next,
            (machine.advance setting = .moved next ∨ machine.advance setting = .counted next) ∧
              (above = [] ∧ Absorbed jump taker below next ∨
                ∃ frame rest, above = frame :: rest ∧
                  next.Underway setting completion jump (taker :: below) rest)) ∧
          ∀ last, Relation.ReflTransGen (Goes setting) machine last →
            Arrived setting completion jump taker below machine last

/-- The flow of control of every machine that has been reached is structured. -/
theorem reached_structured
    {registry : Registry}
    {tokens : TokenList}
    (accepted : compile registry tokens = .ok setting.tree)
    (fits : setting.tree.stmts.size < UInt32.size)
    (reached : machine.Reached setting) :
    machine.Structured setting := by
  have structured := compile_structured accepted
  have flowing := reached.flowing structured fits
  refine ⟨?_, ?_, ?_⟩
  · intro frame below id frames isNode completion isIncoming
    obtain ⟨function, -, known, -⟩ :=
      reached.aligned.disciplined.functions frame (by simp [frames]) id isNode
    exact flowing.functionEnds ⟨function, known⟩ frames isNode isIncoming
  · intro frame below frames owns completion isIncoming
    have aims := (flowing.handed frame below frames).aims completion isIncoming
    rw [Tree.around_cons_other] at aims
    · exact aims.jump?_eq_none
    · rintro id isNode
      rw [isNode] at owns
      cases owns
  · intro completion jump isIncoming isJump
    have aims : jump.Aims (setting.tree.around machine.frames) := by
      cases frames : machine.frames with
      | nil => simp [flowing.rooted frames completion isIncoming] at isJump
      | cons frame below =>
          exact (flowing.handed frame below frames).aims completion isIncoming jump isJump
    obtain ⟨above, taker, below, frames, passed, takes⟩ := Tree.exists_taker aims
    have stacked := reached.aligned.stacked
    rw [frames] at stacked
    have acts := stacked.act_eq fun frame member => (passed frame member).isStatement
    refine ⟨above, taker, below, frames,
      fun frame member => ⟨passed frame member, acts frame member⟩, takes, ?_, ?_⟩
    · cases above with
      | nil =>
          obtain ⟨next, turn, absorbed⟩ := flowing.taken frames isIncoming isJump takes
          exact ⟨next, turn, .inl ⟨rfl, absorbed⟩⟩
      | cons frame rest =>
          obtain ⟨here, further⟩ := List.forall_mem_cons.mp passed
          obtain ⟨next, turn, underway⟩ :=
            flowing.passed frames isIncoming isJump here.passes further
          exact ⟨next, .inl turn, .inr ⟨frame, rest, rfl, underway⟩⟩
    · exact fun last goes =>
        (Underway.inHand frames isIncoming passed).arrives structured fits reached isJump takes goes

/-- A labelled break leaves a try statement, whose final block runs, and an inner loop. -/
def labelledTokens : TokenList :=
  Spelled.program
    [ -- int main() { int x = 0;
      mark .intKw, name "main", mark .openPar, mark .closePar, mark .openBlock,
      mark .intKw, name "x", mark .assign, word .number "0", mark .semicolon,
      -- again: while (true) { while (true)
      name "again", mark .colon,
      mark .whileKw, mark .openPar, mark .trueKw, mark .closePar, mark .openBlock,
      mark .whileKw, mark .openPar, mark .trueKw, mark .closePar,
      -- try { break again; } finally { x = 1; } }
      mark .tryKw, mark .openBlock, mark .breakKw, name "again", mark .semicolon, mark .closeBlock,
      mark .finallyKw, mark .openBlock,
      name "x", mark .assign, word .number "1", mark .semicolon, mark .closeBlock, mark .closeBlock,
      -- return x; }
      mark .returnKw, name "x", mark .semicolon, mark .closeBlock]

/-- The break has left its statement; it is behind the outer loop sixteen turns later. -/
theorem reached_structured_labelled :
    let setting := Spelled.setting labelledTokens
    let started := Spelled.started labelledTokens ⟨0⟩
    let machine := (started.runFor setting 23 none).2
    let last := (started.runFor setting 39 none).2
    (compile .standard labelledTokens).isOk = true ∧
      setting.tree.stmts.size < UInt32.size ∧
      machine.Reached setting ∧
      machine.Structured setting ∧
      machine.incoming = some (.breakTo (some "again")) ∧
      machine.frames.map (·.node) =
        [.statement ⟨4⟩, .statement ⟨5⟩, .statement ⟨6⟩, .statement ⟨7⟩, .statement ⟨9⟩,
          .function ⟨0⟩, .start ⟨0⟩] ∧
      machine.frames.map (fun frame => frame.takes setting.tree ⟨some "again", false⟩) =
        [false, false, false, true, false, false, false] ∧
      last.incoming = some .normal ∧
      last.frames.map (·.node) = [.statement ⟨9⟩, .function ⟨0⟩, .start ⟨0⟩] := by
  intro setting started machine last
  have accepted : (compile .standard labelledTokens).isOk = true := by decide +kernel
  have fits : setting.tree.stmts.size < UInt32.size := by decide +kernel
  have reached : machine.Reached setting :=
    ⟨_, _, (goes_runFor 23 none).1 (by decide +kernel)⟩
  exact ⟨accepted, fits, reached,
    reached_structured (Spelled.setting_accepted accepted) fits reached,
    by decide +kernel, by decide +kernel, by decide +kernel, by decide +kernel, by decide +kernel⟩

end Machine

end BotScript
