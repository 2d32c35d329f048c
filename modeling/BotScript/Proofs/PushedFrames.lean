import BotScript.Proofs.JumpSteps
import BotScript.Snapshot.Restore

namespace BotScript

/-!
# What a step pushes

A frame that stays below another one has gone on: unless the frame above it is a
statement, the frame below is at a later place of its node.  Places do not return, because
no list is longer than words can count.  Frames run and evaluate parts of their nodes only.
And no statement stays below another frame while a step of it is yet to be counted.
-/

/-- No list through which a frame goes is longer than words can count. -/
structure Tree.Countable (tree : Tree) : Prop where
  arguments :
    ∀ (index : Nat) node, tree.exprs[index]? = some node →
      node.kind.arguments.length < UInt32.size
  widths :
    ∀ (index : Nat) node, tree.stmts[index]? = some node → node.kind.width < UInt32.size
  classes : tree.classes.size < UInt32.size
  statics : ∀ entry ∈ tree.classes, entry.statics.length < UInt32.size
  fields :
    ∀ id entry, tree.class? id = some entry → (tree.instanceFields id).length < UInt32.size

/-- The step at which a loop stands once it has counted a further round. -/
def StmtKind.roundState? : StmtKind → Option UInt32
  | .whileLoop _ _ _ => some 1
  | .forLoop _ _ _ _ _ => some 2
  | .doLoop _ _ _ | .repeatLoop _ _ _ => some 3
  | _ => none

/-- A loop that has not been entered has counted no round. -/
theorem StmtKind.roundState?_ne_zero (kind : StmtKind) : kind.roundState? ≠ some 0 := by
  cases kind <;> simp [roundState?]

namespace Frame

/-- A loop that has counted a round which it has not begun. -/
def AtRound (tree : Tree) (frame : Frame) : Prop :=
  ∃ id node, frame.node = .statement id ∧ tree.stmt? id = some node ∧
    node.kind.roundState? = some frame.state

/-- A statement that has not been entered. -/
def AtEntry (frame : Frame) : Prop :=
  ∃ id, frame.node = .statement id ∧ frame.state = 0

/--
A frame that can stay below another one: it is no statement that is about to go on, and
no fields that are about to be set up.
-/
structure CanWait (tree : Tree) (frame : Frame) : Prop where
  entered : ¬ frame.AtEntry
  begun : ¬ frame.AtRound tree
  setUp : ∀ owner, frame.node = .fieldSetup owner → frame.state = 1

/-- How far a frame is in its node: its step, and its place in the lists of its node. -/
def rank (frame : Frame) : Nat :=
  frame.state.toNat * (UInt32.size * UInt32.size) + frame.cursor.toNat * UInt32.size +
    (frame.aux + 1).toNat

/-- Frames that are neither statements nor set up fields can wait. -/
theorem canWait_of_node
    {tree : Tree}
    {frame : Frame}
    (noStatement : ∀ id, frame.node ≠ .statement id)
    (noSetup : ∀ owner, frame.node ≠ .fieldSetup owner) :
    frame.CanWait tree where
  entered atEntry := by
    obtain ⟨id, isStatement, -⟩ := atEntry
    exact noStatement id isStatement
  begun atRound := by
    obtain ⟨id, -, isStatement, -⟩ := atRound
    exact noStatement id isStatement
  setUp owner isSetup := absurd isSetup (noSetup owner)

/-- Fields whose setup has begun can wait. -/
theorem canWait_of_setup
    {tree : Tree}
    {frame : Frame}
    {owner : ClassId}
    (isNode : frame.node = .fieldSetup owner)
    (begun : frame.state = 1) :
    frame.CanWait tree where
  entered atEntry := by
    obtain ⟨id, isStatement, -⟩ := atEntry
    cases isNode.symm.trans isStatement
  begun atRound := by
    obtain ⟨id, -, isStatement, -⟩ := atRound
    cases isNode.symm.trans isStatement
  setUp _ _ := begun

/-- Whether a frame can wait does not depend on its place in a list. -/
theorem CanWait.withCursor
    {tree : Tree}
    {frame : Frame}
    (canWait : frame.CanWait tree)
    (cursor : UInt32) :
    { frame with cursor }.CanWait tree :=
  ⟨canWait.entered, canWait.begun, canWait.setUp⟩

/-- The places of a node are bounded. -/
theorem rank_lt (frame : Frame) :
    frame.rank < UInt32.size * UInt32.size * UInt32.size := by
  have state := frame.state.toNat_lt
  have cursor := frame.cursor.toNat_lt
  have aux := (frame.aux + 1).toNat_lt
  simp only [rank, UInt32.size] at *
  omega

section Order

variable {earlier later : Frame}

/-- A later step is a later place. -/
theorem rank_lt_of_state
    (isLater : earlier.state < later.state) :
    earlier.rank < later.rank := by
  have cursor := earlier.cursor.toNat_lt
  have aux := (earlier.aux + 1).toNat_lt
  rw [UInt32.lt_iff_toNat_lt] at isLater
  simp only [rank, UInt32.size] at *
  omega

/-- A later place in the list of a step is a later place. -/
theorem rank_lt_of_cursor
    (sameState : earlier.state = later.state)
    (isLater : earlier.cursor.toNat < later.cursor.toNat) :
    earlier.rank < later.rank := by
  have aux := (earlier.aux + 1).toNat_lt
  simp only [rank, sameState, UInt32.size] at *
  omega

/-- A later place in a second list is a later place. -/
theorem rank_lt_of_aux
    (sameState : earlier.state = later.state)
    (sameCursor : earlier.cursor = later.cursor)
    (isLater : (earlier.aux + 1).toNat < (later.aux + 1).toNat) :
    earlier.rank < later.rank := by
  simp only [rank, sameState, sameCursor]
  omega

end Order

end Frame

/-- The position behind one that is in a list which words can count. -/
theorem UInt32.toNat_succ_of_lt
    {position : UInt32}
    {length : Nat}
    (inside : position.toNat < length)
    (countable : length < UInt32.size) :
    (position + 1).toNat = position.toNat + 1 := by
  rw [UInt32.toNat_add]
  simp only [UInt32.size] at countable
  exact Nat.mod_eq_of_lt (by simp; omega)

/-- A frame goes on below a frame of another node, which it can push. -/
structure Frame.Bears (tree : Tree) (origin stay : Frame) (child : Node) : Prop where
  sameNode : stay.node = origin.node
  pushes : tree.canPush origin.node child = true

/-- An expression pushes its parts only. -/
theorem Tree.mem_children_of_canPush
    {tree : Tree}
    {parent child : ExprId}
    {demand demand' : Demand}
    (pushes : tree.canPush (.expression parent demand) (.expression child demand') = true) :
    ∃ node, tree.expr? parent = some node ∧ child ∈ node.kind.children := by
  cases found : tree.expr? parent with
  | none => simp [canPush, found] at pushes
  | some node => exact ⟨node, rfl, by simpa [canPush, found] using pushes⟩

/--
A frame pushes statements at any time, and the other frames only on the way to a later
place, or when it begins to set up fields.  What stays below can wait.
-/
inductive Move.Descends (tree : Tree) (origin : Frame) : Move → Prop where
  | runs
      {stay : Frame}
      {id : StmtId}
      {act : UInt32} :
      stay.CanWait tree →
      origin.Bears tree stay (.statement id) →
      Descends tree origin (.push stay (.enter (.statement id) act))
  | calls
      {stay : Frame}
      {id : FuncId}
      {act : UInt32} :
      stay.CanWait tree →
      (tree.Countable → origin.rank < stay.rank) →
      origin.Bears tree stay (.function id) →
      (tree.function? id).isSome →
      Descends tree origin (.push stay (.enter (.function id) act))
  | setsUp
      {stay : Frame}
      {owner : ClassId}
      {act : UInt32} :
      stay.CanWait tree →
      (tree.Countable → origin.rank < stay.rank) →
      origin.Bears tree stay (.fieldSetup owner) →
      Descends tree origin (.push stay (.enter (.fieldSetup owner) act))
  | evaluates
      {stay : Frame}
      {id : ExprId}
      {demand : Demand}
      {act : UInt32} :
      stay.CanWait tree →
      (tree.Countable → origin.rank < stay.rank) →
      origin.Bears tree stay (.expression id demand) →
      Descends tree origin (.push stay (.enter (.expression id demand) act))
  | setsOut
      {stay : Frame}
      {owner : ClassId}
      {id : ExprId}
      {demand : Demand}
      {act : UInt32} :
      origin.node = .fieldSetup owner →
      stay.node = .fieldSetup owner →
      origin.state ≠ 1 →
      stay.state = 1 →
      tree.canPush origin.node (.expression id demand) = true →
      Descends tree origin (.push stay (.enter (.expression id demand) act))
  | ticks
      {stay : Frame} :
      stay.node = origin.node →
      Descends tree origin (.tick stay)
  | ends
      {completion : Completion} :
      Descends tree origin (.complete completion)

/-- A frame is pushed by one that can push it. -/
theorem Move.Descends.bears
    {tree : Tree}
    {origin stay child : Frame}
    (descends : Move.Descends tree origin (.push stay child)) :
    origin.Bears tree stay child.node := by
  cases descends with
  | runs _ bears => exact bears
  | calls _ _ bears => exact bears
  | setsUp _ _ bears => exact bears
  | evaluates _ _ bears => exact bears
  | setsOut isNode stays _ _ pushes => exact ⟨stays.trans isNode.symm, pushes⟩

/-- A frame that goes on stays at its node. -/
theorem Move.Descends.tick_sameNode
    {tree : Tree}
    {origin stay : Frame}
    (descends : Move.Descends tree origin (.tick stay)) :
    stay.node = origin.node := by
  cases descends with
  | ticks sameNode => exact sameNode

namespace Step

variable {α : Type} {tree : Tree} {setting : Setting} {origin frame : Frame}
  {incoming : Option Completion}

/-- A step whose move is one that a frame can make. -/
def Descends (tree : Tree) (origin : Frame) (step : Step Move) : Prop :=
  Gives (Move.Descends tree origin) (fun _ => True) step

/-- Whatever a step gives, its result meets no condition. -/
theorem Gives.any (step : Step α) : Gives (fun _ => True) (fun _ => True) step := by
  intro memory
  cases (step.run.run memory).1 with
  | ok => exact .ok trivial
  | error interrupt =>
      cases interrupt with
      | fault => exact .fault
      | propagate => exact .propagate trivial

/-- Whatever a step gives, a fact stays a fact. -/
theorem Gives.fact
    {fact : Prop}
    (holds : fact)
    (step : Step α) :
    Gives (fun _ => fact) (fun _ => True) step := by
  rw [← bind_pure step]
  exact (Gives.any step).bind fun _ _ => .pure holds

/-- A value that must be there is there. -/
theorem Gives.require
    {hands : Completion → Prop}
    (code : ErrorCode)
    (value : Option α) :
    Gives (fun found => value = some found) hands (Step.require code value) := by
  cases value with
  | none => exact raise code
  | some value => exact pure rfl

/-- A part of the program is there. -/
theorem Gives.part
    {hands : Completion → Prop}
    (value : Option α) :
    Gives (fun found => value = some found) hands (Step.part value) := by
  cases value with
  | none => exact fun _ => .fault
  | some value => exact pure rfl

namespace Descends

/-- A step, and a move that follows it whatever it gives. -/
theorem behind
    {step : Step α}
    {next : α → Step Move}
    (rest : ∀ value, Descends tree origin (next value)) :
    Descends tree origin (step >>= next) :=
  (Gives.any step).bind fun value _ => rest value

/-- An error is no move. -/
theorem raise (code : ErrorCode) : Descends tree origin (Step.raise code) :=
  Gives.raise code

/-- A frame that is done. -/
theorem complete (completion : Completion) :
    Descends tree origin (pure (.complete completion)) :=
  .pure .ends

/-- A counted step. -/
theorem tick
    (sameNode : frame.node = origin.node) :
    Descends tree origin (pure (.tick frame)) :=
  .pure (.ticks sameNode)

/-- The end of a statement. -/
theorem done : Descends tree origin Step.done :=
  complete .normal

/-- A delivered cell or its value. -/
theorem deliver
    (cell : CellId)
    (demand : Demand) :
    Descends tree origin (Step.deliver cell demand) := by
  cases demand with
  | place => exact complete _
  | value => exact behind fun _ => complete _

/-- A delivered value or a temporary cell that holds it. -/
theorem produce
    (value : Value)
    (ty : Ty)
    (demand : Demand) :
    Descends tree origin (Step.produce value ty demand) := by
  cases demand with
  | value => exact complete _
  | place => exact behind fun _ => complete _

/-- A frame with a new activation on top of a frame. -/
theorem pushOwner
    {activation : Activation}
    {node : Node}
    (descends : ∀ act, Move.Descends tree origin (.push frame (.enter node act))) :
    Descends tree origin (do
      let act ← Step.pushActivation setting activation
      Pure.pure (.push frame (.enter node act))) :=
  behind fun act => .pure (descends act)

/-! ### Try statements -/

/-- A boolean clause that is found lies behind the place from which it is searched. -/
theorem bounds_of_conditionFrom?
    {clauses : List CatchClause}
    {start index : Nat}
    {clause : CatchClause}
    (found : Step.conditionFrom? clauses start = some (index, clause)) :
    start ≤ index ∧ index < clauses.length := by
  unfold Step.conditionFrom? at found
  obtain ⟨⟨candidate, position⟩, member, chosen⟩ := List.exists_of_findSome?_eq_some found
  obtain ⟨offset, inside, isThere⟩ := List.getElem_of_mem member
  simp only [List.getElem_drop, List.getElem_zipIdx, Prod.mk.injEq] at isThere
  simp only [List.length_drop, List.length_zipIdx] at inside
  dsimp only at chosen
  split at chosen
  · cases chosen
    omega
  · cases chosen

/-- A boolean clause that is found is one of the clauses. -/
theorem mem_of_conditionFrom?
    {clauses : List CatchClause}
    {start index : Nat}
    {clause : CatchClause}
    (found : Step.conditionFrom? clauses start = some (index, clause)) :
    clause ∈ clauses := by
  unfold Step.conditionFrom? at found
  obtain ⟨⟨other, position⟩, member, chosen⟩ := List.exists_of_findSome?_eq_some found
  have inside := List.mem_of_mem_drop member
  dsimp only at chosen
  split at chosen
  · cases chosen
    exact List.fst_mem_of_mem_zipIdx inside
  · simp at chosen

section Statement

variable {id : StmtId} {node : Stmt} (isNode : origin.node = .statement id)

include isNode

/-- A statement that is entered and has begun its round can wait. -/
theorem canWait
    (found : tree.stmt? id = some node)
    (sameNode : frame.node = origin.node)
    (entered : frame.state ≠ 0)
    (begun : node.kind.roundState? ≠ some frame.state) :
    frame.CanWait tree where
  entered := by
    rintro ⟨_, _, isFirst⟩
    exact entered isFirst
  begun := by
    rintro ⟨other, stored, isOther, isStored, atRound⟩
    cases isOther.symm.trans (sameNode.trans isNode)
    cases isStored.symm.trans found
    exact begun atRound
  setUp owner isSetup := by cases isNode.symm.trans (sameNode.symm.trans isSetup)

section Parts

variable (found : tree.stmt? id = some node) (sameNode : frame.node = origin.node)
  (canWait : frame.CanWait tree)

include found sameNode canWait

/-- A part of a statement on top of it. -/
theorem run
    {child : StmtId}
    (isPart : child ∈ node.kind.childStmts) :
    Descends tree origin (pure (Step.pushStatement frame child)) :=
  .pure (.runs canWait ⟨sameNode, by simp [isNode, Tree.canPush, found, isPart]⟩)

/-- The statement under the cursor. -/
theorem nextStatement
    {statements : List StmtId}
    (areParts : statements ⊆ node.kind.childStmts) :
    Descends tree origin (Step.nextStatement frame statements) := by
  unfold Step.nextStatement
  split
  · next isThere =>
    exact run isNode found (by exact sameNode) (canWait.withCursor _)
      (areParts (List.mem_of_getElem? isThere))
  · exact done

/-- An expression on top of a statement that goes on to a later place. -/
theorem evaluate
    {child : ExprId}
    (isPart : child ∈ node.kind.childExprs)
    (isLater : tree.Countable → origin.rank < frame.rank)
    (demand : Demand) :
    Descends tree origin (pure (Step.pushExpression frame child demand)) :=
  .pure (.evaluates canWait isLater
    ⟨sameNode, by simp [isNode, Tree.canPush, found, isPart]⟩)

end Parts

section Guarded

variable {body : List StmtId} {clauses : List CatchClause} {final : Option StmtId}
  (found : tree.stmt? id = some node) (isKind : node.kind = .guarded body clauses final)

include found isKind

section

variable (sameNode : frame.node = origin.node)

include sameNode

/-- A try statement that has been entered can wait. -/
theorem canWait_guarded
    (entered : frame.state ≠ 0) :
    frame.CanWait tree :=
  canWait isNode found sameNode entered (by simp [isKind, StmtKind.roundState?])

/-- The final block. -/
theorem runFinal :
    Descends tree origin (Step.runFinal frame final) := by
  cases final with
  | none => exact complete _
  | some final =>
      exact run isNode found (by exact sameNode)
        (canWait_guarded isNode found isKind (by exact sameNode) (by simp))
        (by simp [isKind, StmtKind.childStmts])

/-- The handler of a clause. -/
theorem runHandler :
    Descends tree origin (Step.runHandler frame clauses) := by
  refine (Gives.require _ _).bind fun clause isThere => ?_
  refine run isNode found (by exact sameNode)
    (canWait_guarded isNode found isKind (by exact sameNode) (by simp)) ?_
  have isPart := List.mem_map_of_mem (f := CatchClause.body) (List.mem_of_getElem? isThere)
  simp [isKind, StmtKind.childStmts, isPart]

/-- The test of a clause. -/
theorem matchClause
    (isLater :
      tree.Countable → frame.aux.toNat < clauses.length →
      origin.rank < { frame with state := 5 }.rank) :
    Descends tree origin (Step.matchClause frame clauses final) := by
  unfold Step.matchClause
  split
  · next clause isThere =>
    refine evaluate isNode found (by exact sameNode)
      (canWait_guarded isNode found isKind (by exact sameNode) (by simp)) ?_
      (fun countable => isLater countable (List.getElem?_eq_some_iff.mp isThere).1) _
    rw [isKind]
    exact List.mem_map_of_mem (List.mem_of_getElem? isThere)
  · exact runFinal isNode found isKind (by exact sameNode)

/-- The first test against an exception. -/
theorem matchFirst
    (early : origin.state < 5)
    (error : RuntimeError) :
    Descends tree origin (Step.matchFirst frame clauses final error) :=
  matchClause isNode found isKind (by exact sameNode) fun _ _ => Frame.rank_lt_of_state early

/-- The next statement of the body. -/
theorem nextGuarded :
    Descends tree origin (Step.nextGuarded frame body final) := by
  unfold Step.nextGuarded
  split
  · next isThere =>
    refine run isNode found (by exact sameNode)
      (canWait_guarded isNode found isKind (by exact sameNode) (by simp)) ?_
    simp [isKind, StmtKind.childStmts, List.mem_of_getElem? isThere]
  · exact runFinal isNode found isKind (by exact sameNode)

/-- The poll of a boolean clause. -/
theorem poll
    {otherwise : Frame → Step Move}
    (isLater :
      ∀ index : Nat, tree.Countable → frame.aux.toNat ≤ index → index < clauses.length →
      origin.rank < { frame with aux := UInt32.ofNat index, state := 3 }.rank)
    (rest : Descends tree origin (otherwise { frame with state := 1 })) :
    Descends tree origin (Step.poll frame clauses otherwise) := by
  unfold Step.poll
  split
  · next index clause polled =>
    obtain ⟨behind, inside⟩ := bounds_of_conditionFrom? polled
    refine evaluate isNode found (by exact sameNode)
      (canWait_guarded isNode found isKind (by exact sameNode) (by simp)) ?_
      (fun countable => isLater index countable behind inside) _
    rw [isKind]
    exact List.mem_map_of_mem (mem_of_conditionFrom? polled)
  · exact rest

/-- The end of a statement of the body. -/
theorem bodyEnded
    (early : origin.state < 3) :
    Descends tree origin (Step.bodyEnded frame body clauses final incoming) := by
  unfold Step.bodyEnded
  split
  · exact nextGuarded isNode found isKind (by exact sameNode)
  · exact matchFirst isNode found isKind sameNode (by grind) _
  · split
    · exact runFinal isNode found isKind (by exact sameNode)
    · split
      · exact poll isNode found isKind (by exact sameNode)
          (fun _ _ _ _ => Frame.rank_lt_of_state early)
          (nextGuarded isNode found isKind (by exact sameNode))
      · exact nextGuarded isNode found isKind (by exact sameNode)

end

/-- The poll of a boolean clause that has been evaluated. -/
theorem pollEnded
    (stored : tree.Countable → clauses.length < UInt32.size)
    (isFrame : frame = origin)
    (atPoll : origin.state = 3) :
    Descends tree origin (Step.pollEnded frame body clauses final incoming) := by
  subst isFrame
  unfold Step.pollEnded
  split
  · exact matchFirst isNode found isKind rfl (by simp [atPoll]) _
  · refine behind fun holds => ?_
    split
    · exact runHandler isNode found isKind rfl
    · refine poll isNode found isKind (by rfl) (fun index countable behind inside => ?_)
        (nextGuarded isNode found isKind (by rfl))
      have short := stored countable
      refine Frame.rank_lt_of_aux atPoll rfl (Nat.lt_of_le_of_lt behind ?_)
      have position : (UInt32.ofNat index).toNat = index :=
        UInt32.toNat_ofNat_of_lt' (Nat.lt_trans inside short)
      rw [UInt32.toNat_succ_of_lt (by rwa [position]) short, position]
      exact Nat.lt_succ_self index

/-- The test of a clause that has been evaluated. -/
theorem matchEnded
    (stored : tree.Countable → clauses.length < UInt32.size)
    (isFrame : frame = origin)
    (atTest : origin.state = 5) :
    Descends tree origin (Step.matchEnded frame clauses final incoming) := by
  subst isFrame
  unfold Step.matchEnded
  split
  · exact runFinal isNode found isKind rfl
  · refine behind fun clause => behind fun tested => behind fun holds => ?_
    split
    · exact runHandler isNode found isKind rfl
    · refine matchClause isNode found isKind rfl fun countable inside => ?_
      refine Frame.rank_lt_of_aux atTest rfl ?_
      rw [UInt32.toNat_succ_of_lt inside (stored countable)]
      exact Nat.lt_succ_self _

/-- A step of a try statement. -/
theorem guarded
    (stored : tree.Countable → clauses.length < UInt32.size) :
    Descends tree origin (Step.guarded origin body clauses final incoming) := by
  unfold Step.guarded
  split
  · next state => exact bodyEnded isNode found isKind rfl (by simp [state])
  · next state =>
    exact poll isNode found isKind rfl
      (fun _ _ _ _ => Frame.rank_lt_of_state (by simp [state]))
      (bodyEnded isNode found isKind rfl (by simp [state]))
  · next state => exact pollEnded isNode found isKind stored rfl state
  · next state =>
    exact matchClause isNode found isKind rfl
      fun _ _ => Frame.rank_lt_of_state (by simp [state])
  · next state => exact matchEnded isNode found isKind stored rfl state
  · exact runHandler isNode found isKind rfl
  · exact runFinal isNode found isKind rfl
  · exact runFinal isNode found isKind rfl
  · exact complete _

end Guarded

/-! ### Loops -/

/-- The expression under the cursor of the third list of a `for` loop. -/
theorem forSteps
    {steps : List ExprId}
    (found : tree.stmt? id = some node)
    (sameNode : frame.node = origin.node)
    (canWait : frame.CanWait tree)
    (areParts : steps ⊆ node.kind.childExprs)
    (isLater :
      tree.Countable → frame.cursor.toNat < steps.length →
      origin.rank < { frame with cursor := frame.cursor + 1 }.rank) :
    Descends tree origin (Step.forSteps frame steps) := by
  unfold Step.forSteps
  split
  · next isThere =>
    exact evaluate isNode found (by exact sameNode) (canWait.withCursor _)
      (areParts (List.mem_of_getElem? isThere))
      (fun countable => isLater countable (List.getElem?_eq_some_iff.mp isThere).1) _
  · exact tick (by exact sameNode)

section ForLoop

variable {label : Option String} {initial : List StmtId} {condition : Option ExprId}
  {steps : List ExprId} {body : StmtId} (found : tree.stmt? id = some node)
  (isKind : node.kind = .forLoop label initial condition steps body)

include found isKind

/-- The body of a `for` loop. -/
theorem forTested
    (sameNode : frame.node = origin.node) :
    Descends tree origin (Step.forTested frame body incoming) := by
  have started (goOn : Bool) :
      Descends tree origin
        (if goOn then pure (Step.pushStatement { frame with state := 4 } body)
        else Step.done) := by
    split
    · exact run isNode found (by exact sameNode)
        (canWait isNode found (by exact sameNode) (by simp)
          (by simp [isKind, StmtKind.roundState?]))
        (by simp [isKind, StmtKind.childStmts])
    · exact done
  unfold Step.forTested
  split
  · exact behind started
  · exact started true

/-- The test of a `for` loop. -/
theorem forTest
    (sameNode : frame.node = origin.node)
    (early : origin.state < 3) :
    Descends tree origin (Step.forTest frame condition body incoming) := by
  unfold Step.forTest
  split
  · exact evaluate isNode found (by exact sameNode)
      (canWait isNode found (by exact sameNode) (by simp)
        (by simp [isKind, StmtKind.roundState?]))
      (by simp [isKind, StmtKind.childExprs]) (fun _ => Frame.rank_lt_of_state early) _
  · exact forTested isNode found isKind (by exact sameNode)

/-- A step of a `for` loop. -/
theorem forLoop
    (stored : tree.Countable → steps.length < UInt32.size)
    (entered : origin.state ≠ 0) :
    Descends tree origin
      (Step.forLoop origin label initial condition steps body incoming) := by
  unfold Step.forLoop
  split
  · next state =>
    refine behind fun _ => ?_
    split
    · next isThere =>
      have atFirst : origin.CanWait tree :=
        canWait isNode found rfl entered (by simp [isKind, StmtKind.roundState?, state])
      refine run isNode found (by rfl) (atFirst.withCursor _) ?_
      simp [isKind, StmtKind.childStmts, List.mem_of_getElem? isThere]
    · exact forTest isNode found isKind rfl (by simp [state])
  · next state => exact forTest isNode found isKind rfl (by simp [state])
  · exact forTested isNode found isKind rfl
  · next state =>
    refine behind fun goOn => ?_
    split
    · exact forSteps isNode found rfl
        (canWait isNode found rfl (by simp) (by simp [isKind, StmtKind.roundState?]))
        (by simp [isKind, StmtKind.childExprs]) fun _ _ => Frame.rank_lt_of_state (by simp [state])
    · exact done
  · next isNoTest _ _ =>
    have continues : Descends tree origin (Step.forSteps origin steps) := by
      refine forSteps isNode found rfl
        (canWait isNode found rfl entered
          (by simpa [isKind, StmtKind.roundState?, eq_comm] using isNoTest))
        (by simp [isKind, StmtKind.childExprs])
        fun countable inside => Frame.rank_lt_of_cursor rfl ?_
      rw [UInt32.toNat_succ_of_lt inside (stored countable)]
      exact Nat.lt_succ_self _
    split
    · exact behind fun _ => continues
    · exact continues

end ForLoop

/-- The next round of a `repeat` loop. -/
theorem nextRound
    {label : Option String}
    {count : ExprId}
    {body : StmtId}
    (found : tree.stmt? id = some node)
    (isKind : node.kind = .repeatLoop label count body)
    (sameNode : frame.node = origin.node) :
    Descends tree origin (Step.nextRound frame body) := by
  unfold Step.nextRound
  dsimp only
  split
  · exact done
  · exact run isNode found (by exact sameNode)
      (canWait isNode found (by exact sameNode) (by simp)
        (by simp [isKind, StmtKind.roundState?]))
      (by simp [isKind, StmtKind.childStmts])

/-! ### All statements -/

/-- The declaration of a variable. -/
theorem declare
    {slot : LocalSlot}
    {limits : Limits}
    {initial : Option ExprId}
    (found : tree.stmt? id = some node)
    (isKind : node.kind = .declare slot limits initial) :
    Descends tree origin (Step.declare tree origin slot limits initial incoming) := by
  refine behind fun activation => behind fun former => behind fun heap => ?_
  dsimp only
  split
  · next state =>
    exact evaluate isNode found (by rfl)
      (canWait isNode found (by rfl) (by simp) (by simp [isKind, StmtKind.roundState?]))
      (by simp [isKind, StmtKind.childExprs]) (fun _ => Frame.rank_lt_of_state (by simp [state])) _
  · exact behind fun _ => behind fun _ => done
  · exact behind fun _ => behind fun _ => behind fun _ => behind fun _ => behind fun _ =>
      behind fun _ => done

/-- A step of a statement that has been entered. -/
theorem entered
    (found : setting.tree.stmt? id = some node)
    (entered : origin.state ≠ 0) :
    Descends setting.tree origin (Step.entered setting origin node incoming) := by
  have stored (countable : setting.tree.Countable) : node.kind.width < UInt32.size :=
    countable.widths id.index node found
  have first
      {state : UInt32}
      (isFirst : origin.state = 1)
      (later : 1 < state)
      (begun : node.kind.roundState? ≠ some state)
      {child : ExprId}
      (isPart : child ∈ node.kind.childExprs) :
      Descends setting.tree origin
        (pure (Step.pushExpression { origin with state } child .value)) :=
    evaluate isNode found (by rfl) (canWait isNode found (by rfl) (by rintro rfl; cases later) begun)
      isPart (fun _ => Frame.rank_lt_of_state (by simpa [isFirst] using later)) _
  have run
      (state : UInt32)
      (notFirst : state ≠ 0)
      (begun : node.kind.roundState? ≠ some state)
      {child : StmtId}
      (isPart : child ∈ node.kind.childStmts) :
      Descends setting.tree origin (pure (Step.pushStatement { origin with state } child)) :=
    run isNode found (by rfl) (canWait isNode found (by rfl) notFirst begun) isPart
  have waits
      (begun : node.kind.roundState? ≠ some origin.state) :
      origin.CanWait setting.tree :=
    canWait isNode found (by rfl) entered begun
  unfold Step.entered
  dsimp only
  split <;> rename_i isKind
  · split
    · next state =>
      exact first state (by decide) (by simp [isKind, StmtKind.roundState?])
        (by simp [isKind, StmtKind.childExprs])
    · exact behind fun _ => done
  · exact declare isNode found isKind
  · exact behind fun _ =>
      nextStatement isNode found rfl (waits (by simp [isKind, StmtKind.roundState?]))
        (by simp [isKind, StmtKind.childStmts])
  · split
    · next state =>
      exact first state (by decide) (by simp [isKind, StmtKind.roundState?])
        (by simp [isKind, StmtKind.childExprs])
    · refine behind fun holds => ?_
      split
      · next chosen =>
        refine run 3 (by decide) (by simp [isKind, StmtKind.roundState?]) ?_
        cases holds <;> simp_all [StmtKind.childStmts]
      · exact done
    · exact behind fun _ => done
  · split
    · next state =>
      exact first state (by decide) (by simp [isKind, StmtKind.roundState?])
        (by simp [isKind, StmtKind.childExprs])
    · refine behind fun holds => ?_
      split
      · exact run 3 (by decide) (by simp [isKind, StmtKind.roundState?])
          (by simp [isKind, StmtKind.childStmts])
      · exact done
    · refine behind fun goOn => ?_
      split
      · exact tick (by rfl)
      · exact done
  · split
    · exact run 2 (by decide) (by simp [isKind, StmtKind.roundState?])
        (by simp [isKind, StmtKind.childStmts])
    · refine behind fun goOn => ?_
      split
      · exact tick (by rfl)
      · exact done
    · next state =>
      exact evaluate isNode found (by rfl)
        (canWait isNode found (by rfl) (by simp) (by simp [isKind, StmtKind.roundState?]))
        (by simp [isKind, StmtKind.childExprs])
        (fun _ => Frame.rank_lt_of_state (by simp [state])) _
    · refine behind fun holds => ?_
      split
      · exact run 2 (by decide) (by simp [isKind, StmtKind.roundState?])
          (by simp [isKind, StmtKind.childStmts])
      · exact done
  · exact forLoop isNode found isKind
      (fun countable => by simpa [isKind, StmtKind.width] using stored countable) entered
  · unfold Step.repeatLoop
    split
    · next state =>
      exact first state (by decide) (by simp [isKind, StmtKind.roundState?])
        (by simp [isKind, StmtKind.childExprs])
    · refine behind fun rounds => ?_
      split
      · exact raise _
      · exact behind fun _ => nextRound isNode found isKind rfl
    · exact nextRound isNode found isKind rfl
    · refine behind fun goOn => ?_
      split
      · exact tick (by rfl)
      · exact done
  · unfold Step.switchOn
    split
    · next state =>
      exact first state (by decide) (by simp [isKind, StmtKind.roundState?])
        (by simp [isKind, StmtKind.childExprs])
    · refine behind fun value => behind fun selected => ?_
      dsimp only
      split
      · exact nextStatement isNode found (by rfl)
          (canWait isNode found (by rfl) (by simp) (by simp [isKind, StmtKind.roundState?]))
          (by simp [isKind, StmtKind.childStmts])
      · exact done
    · split
      · exact done
      · exact behind fun _ =>
          nextStatement isNode found rfl (waits (by simp [isKind, StmtKind.roundState?]))
            (by simp [isKind, StmtKind.childStmts])
  · exact complete _
  · exact complete _
  · exact complete _
  · split
    · next state =>
      exact first state (by decide) (by simp [isKind, StmtKind.roundState?])
        (by simp [isKind, StmtKind.childExprs])
    · exact behind fun _ => behind fun _ => behind fun _ => behind fun _ => behind fun _ =>
        behind fun _ => complete _
  · split
    · next state =>
      exact first state (by decide) (by simp [isKind, StmtKind.roundState?])
        (by simp [isKind, StmtKind.childExprs])
    · refine behind fun value => ?_
      refine behind fun code => ?_
      split
      · exact complete _
      · exact raise _
  · exact guarded isNode found isKind
      (fun countable => by simpa [isKind, StmtKind.width] using stored countable)

/-- A step of a statement. -/
theorem statement :
    Descends setting.tree origin (Step.statement setting origin id incoming) := by
  unfold Step.statement
  split
  · exact tick (by rfl)
  · next isEntered =>
    exact (Gives.part _).bind fun node found => entered isNode found isEntered

end Statement

end Descends

end Step

end BotScript
