import BotScript.Proofs.OutlineFrames
import BotScript.Proofs.StructuredPrograms

namespace BotScript

/-!
# Jumps and ends of statements

A jump that a statement ends with has a target among the loops and switches
around it.  A statement that always leaves its function never ends normally: as
long as the part that it runs ends normally, there is a later part that leaves,
and an exception that is caught leads to a handler that leaves.
-/

/-- The jump that a completion makes. -/
def Completion.jump? : Completion → Option Jump
  | .breakTo label => some ⟨label, false⟩
  | .continueTo label => some ⟨label, true⟩
  | _ => none

/-- Whether a statement can end with a completion: it delivers no value. -/
def Completion.isEnd : Completion → Bool
  | .value _ | .place _ => false
  | _ => true

/-- A completion that makes a jump makes one to some loops and switches. -/
def Completion.Aims (completion : Completion) (around : List Breakable) : Prop :=
  ∀ jump, completion.jump? = some jump → jump.Aims around

/--
A statement inside of some loops and switches can end with a completion; it can
end normally if it is free to.
-/
structure Completion.Ends (completion : Completion) (around : List Breakable) (free : Prop) :
    Prop where
  isEnd : completion.isEnd = true
  aims : completion.Aims around
  normal : completion = .normal → free

namespace Completion

variable {completion : Completion} {around : List Breakable} {free : Prop}

/-- What makes no jump has no target to miss. -/
theorem aims_of_jump?
    (isNoJump : completion.jump? = none) :
    completion.Aims around :=
  fun jump isJump => by simp [isNoJump] at isJump

/-- A jump that the innermost loop or switch does not take has its target further out. -/
theorem Aims.beyond
    {breakable : Breakable}
    (aims : completion.Aims (breakable :: around))
    (passes : ∀ jump, completion.jump? = some jump → breakable.takes jump = false) :
    completion.Aims around := by
  intro jump isJump
  obtain ⟨found, member, takes⟩ := aims jump isJump
  obtain rfl | member := List.mem_cons.mp member
  · simp [passes jump isJump] at takes
  · exact ⟨found, member, takes⟩

/-- A statement can end abruptly. -/
theorem isEnd_of_isAbrupt
    (abrupt : completion.isAbrupt = true) :
    completion.isEnd = true := by
  cases completion <;> first | rfl | cases abrupt

/-- A statement that does not end abruptly ends normally. -/
theorem eq_normal
    (isEnd : completion.isEnd = true)
    (quiet : completion.isAbrupt = false) :
    completion = .normal := by
  cases completion with
  | normal => rfl
  | value => cases isEnd
  | place => cases isEnd
  | _ => cases quiet

/-- A jump to none is no jump. -/
theorem Aims.jump?_eq_none
    (aims : completion.Aims []) :
    completion.jump? = none := by
  cases isJump : completion.jump? with
  | none => rfl
  | some jump =>
      obtain ⟨_, member, -⟩ := aims jump isJump
      cases member

/-- A jump with a target among none has one among any. -/
theorem Aims.ofNone
    (aims : completion.Aims []) :
    completion.Aims around :=
  aims_of_jump? aims.jump?_eq_none

/-- What is abrupt is not normal. -/
theorem Aims.ends
    (aims : completion.Aims around)
    (abrupt : completion.isAbrupt = true) :
    completion.Ends around free := by
  refine ⟨isEnd_of_isAbrupt abrupt, aims, ?_⟩
  rintro rfl
  cases abrupt

/-- An abrupt end that makes no jump. -/
theorem ends_of_jump?
    (isNoJump : completion.jump? = none)
    (abrupt : completion.isAbrupt = true) :
    completion.Ends around free :=
  (aims_of_jump? isNoJump).ends abrupt

/-- An exception leaves every statement. -/
theorem ends_thrown
    (error : RuntimeError) :
    (Completion.thrown error).Ends around free :=
  ends_of_jump? rfl rfl

end Completion

/-- A completion is no reason to leave a statement. -/
def Smooth (incoming : Option Completion) : Prop :=
  ∀ completion, incoming = some completion → completion.isAbrupt = false

/-- A loop takes the jumps that aim at it. -/
theorem Breakable.takes_loop
    (jump label : Option String)
    (isContinue : Bool) :
    Breakable.takes ⟨label, true⟩ ⟨jump, isContinue⟩ = jumpAims jump label := by
  cases jump with
  | none => rfl
  | some name => exact BEq.comm

/-! ## Frames of statements -/

/--
Whether a statement runs one of its parts at a step, and no expression.  The
statements at the start of a counting loop do not count: they do not jump.
-/
def StmtKind.runsPart : StmtKind → UInt32 → Bool
  | .block _, state => state != 0
  | .branch _ _ _, state | .whileLoop _ _ _, state | .switchOn _ _ _, state => 3 ≤ state
  | .doLoop _ _ _, state => state == 2
  | .forLoop _ _ _ _ _, state => state == 4
  | .repeatLoop _ _ _, state => 4 ≤ state
  | .guarded _ _ _, state => state == 1 || state == 7 || state == 9
  | _, _ => false

namespace Frame

/-- A frame holds a completion back that is no normal end. -/
def Withholds (frame : Frame) : Prop :=
  ∃ completion, frame.pending = some completion ∧ completion.isAbrupt = true

/--
When the part that a statement runs ends normally, what it runs next leaves the
function.  A try statement that has no part left goes on with what it holds back.
-/
def LeavesOf (tree : Tree) (frame : Frame) : StmtKind → Prop
  | .block parts => ∃ part ∈ parts.drop frame.cursor.toNat, tree.Leaves part
  | .branch _ whenTrue (some whenFalse) =>
      frame.state ≤ 2 ∧ tree.Leaves whenTrue ∧ tree.Leaves whenFalse
  | .breakTo _ | .continueTo _ | .returnWith _ | .throwCode _ => True
  | .guarded body clauses final =>
      frame.state ≤ 3 ∧ (∃ part ∈ body.drop frame.cursor.toNat, tree.Leaves part) ∧
          (∀ clause ∈ clauses, tree.Leaves clause.body) ∨
        4 ≤ frame.state ∧ frame.state ≤ 6 ∧ (∀ clause ∈ clauses, tree.Leaves clause.body) ∧
          frame.Withholds ∨
        8 ≤ frame.state ∧ frame.Withholds ∨
        frame.state ≤ 8 ∧ ∃ part ∈ final, tree.Leaves part
  | _ => False

/--
A statement waits for a part, and when that ends abruptly and the statement goes
on nevertheless, it leaves the function.
-/
def RecoversOf (tree : Tree) (frame : Frame) : StmtKind → Prop
  | .expression _ | .declare _ _ _ | .branch _ _ _ => 2 ≤ frame.state
  | .whileLoop _ _ _ | .doLoop _ _ _ | .forLoop _ _ _ _ _ | .repeatLoop _ _ _
  | .switchOn _ _ _ => False
  | .guarded _ clauses final =>
      (frame.state = 1 ∨ frame.state = 3 ∨ frame.state = 5) ∧
          ((∀ clause ∈ clauses, tree.Leaves clause.body) ∨ ∃ part ∈ final, tree.Leaves part) ∨
        frame.state = 7 ∨ frame.state = 9
  | .block _ => frame.state ≠ 0
  | _ => True

/-- The loops and switches around a part of a statement that is itself inside of some. -/
def inner (frame : Frame) (around : List Breakable) (kind : StmtKind) : List Breakable :=
  if kind.runsPart frame.state then kind.breakable?.toList ++ around else []

/-- What a frame holds back makes no jump but to one of some loops and switches. -/
def Keeps (frame : Frame) (around : List Breakable) : Prop :=
  ∀ completion, frame.pending = some completion →
    completion.isEnd = true ∧ completion.Aims around

/-- What a frame goes on with when it has held something back, or else nothing. -/
theorem Keeps.held
    {frame : Frame}
    {around : List Breakable}
    (keeps : frame.Keeps around) :
    (frame.pending.getD .normal).isEnd = true ∧ (frame.pending.getD .normal).Aims around := by
  cases isPending : frame.pending with
  | none => exact ⟨rfl, Completion.aims_of_jump? rfl⟩
  | some completion => exact keeps completion isPending

end Frame

/--
What a statement of a kind does inside of some loops and switches, when it can end
normally if it is free to: it runs a part, evaluates an expression, counts a step
or ends.
-/
inductive Move.Flows (tree : Tree) (kind : StmtKind) (around : List Breakable) (free : Prop) :
    Move → Prop where
  | runs
      {stay : Frame}
      {part : StmtId}
      {act : UInt32} :
      stay.Keeps around →
      tree.Targeted (stay.inner around kind) part →
      tree.Leaves part ∨ stay.LeavesOf tree kind ∨ free →
      stay.RecoversOf tree kind ∨ free →
      Flows tree kind around free (.push stay (.enter (.statement part) act))
  | evaluates
      {stay : Frame}
      {id : ExprId}
      {demand : Demand}
      {act : UInt32} :
      stay.Keeps around →
      stay.LeavesOf tree kind ∨ free →
      stay.RecoversOf tree kind ∨ free →
      Flows tree kind around free (.push stay (.enter (.expression id demand) act))
  | ticks
      {stay : Frame} :
      stay.Keeps around →
      stay.LeavesOf tree kind ∨ free →
      Flows tree kind around free (.tick stay)
  | ends
      {completion : Completion} :
      completion.Ends around free →
      Flows tree kind around free (.complete completion)

namespace Step

variable {α β : Type} {tree : Tree} {kind : StmtKind} {around : List Breakable} {free : Prop}
  {frame : Frame} {incoming : Option Completion}

/-- What a step has given when its result meets a condition, and so does what it hands on. -/
inductive Given (post : α → Prop) (hands : Completion → Prop) : Except Interrupt α → Prop where
  | ok
      {value : α} :
      post value →
      Given post hands (.ok value)
  | fault
      {fault : Fault} :
      Given post hands (.error (.fault fault))
  | propagate
      {completion : Completion} :
      hands completion →
      Given post hands (.error (.propagate completion))

/-- Over every memory, the result of a step meets a condition, and so does what it hands on. -/
def Gives (post : α → Prop) (hands : Completion → Prop) (step : Step α) : Prop :=
  ∀ memory : Memory, Given post hands (step.run.run memory).1

namespace Gives

variable {post : α → Prop} {hands : Completion → Prop}

/-- A result that needs no step. -/
theorem pure
    {value : α}
    (holds : post value) :
    Gives post hands (Pure.pure value) :=
  fun _ => .ok holds

/-- A step and what follows it. -/
theorem bind
    {last : β → Prop}
    {step : Step α}
    {next : α → Step β}
    (first : Gives post hands step)
    (rest : ∀ value, post value → Gives last hands (next value)) :
    Gives last hands (step >>= next) := by
  intro memory
  have given := first memory
  simp only [ExceptT.run_bind, StateT.run_bind]
  revert given
  generalize step.run.run memory = reached
  obtain ⟨result, after⟩ := reached
  intro given
  cases given with
  | ok holds => exact rest _ holds after
  | fault => exact .fault
  | propagate handed => exact .propagate handed

/-- A step that any frame could make hands on nothing but exceptions. -/
theorem ofRetains
    {step : Step α}
    (retains : ∀ held node, Retains held node post step)
    (thrown : ∀ error, hands (.thrown error)) :
    Gives post hands step := by
  intro memory
  have once := retains memory.outlines (.fieldSetup default) memory rfl
  have again := retains memory.outlines (.start default) memory rfl
  revert once again
  generalize step.run.run memory = reached
  intro once again
  cases once with
  | ok _ holds => exact .ok holds
  | fault => exact .fault
  | @propagate completion _ _ delivers =>
      cases again with
      | propagate _ others =>
          refine .propagate ?_
          cases completion with
          | thrown error => exact thrown error
          | _ => first | exact False.elim delivers | exact False.elim others

/-- A completion that goes on to the frame below. -/
theorem propagate
    {completion : Completion}
    (handed : hands completion) :
    Gives post hands (throw (.propagate completion)) :=
  fun _ => .propagate handed

/-- An error. -/
theorem raise
    (code : ErrorCode) :
    Gives post hands (Step.raise code) :=
  fun _ => .fault

/-- What a part has delivered is a value or goes on to the frame below. -/
theorem valueOf
    (handsOn : ∀ completion, incoming = some completion → completion.isAbrupt = true →
      hands completion)
    (thrown : ∀ error, hands (.thrown error)) :
    Gives (fun _ => Smooth incoming) hands (Step.valueOf incoming) := by
  unfold Step.valueOf
  split
  · refine pure ?_
    rintro _ ⟨⟩
    rfl
  · have smooth : Smooth (some (.place ‹_›)) := by
      rintro _ ⟨⟩
      rfl
    rw [← bind_pure (Step.read _)]
    exact (ofRetains (fun _ _ => .read _) thrown).bind fun _ _ => pure smooth
  · split
    · next abrupt => exact propagate (handsOn _ rfl abrupt)
    · exact raise _
  · exact raise _

/-- The truth value a condition has delivered. -/
theorem conditionOf
    (handsOn : ∀ completion, incoming = some completion → completion.isAbrupt = true →
      hands completion)
    (thrown : ∀ error, hands (.thrown error)) :
    Gives (fun _ => Smooth incoming) hands (Step.conditionOf incoming) := by
  refine (valueOf handsOn thrown).bind fun value smooth => ?_
  rw [← bind_pure (Step.truth _)]
  exact (ofRetains (fun _ _ => .truth _) thrown).bind fun _ _ => pure smooth

/-- What is abrupt goes on to the frame below. -/
theorem settle
    (handsOn : ∀ completion, incoming = some completion → completion.isAbrupt = true →
      hands completion) :
    Gives (fun _ => Smooth incoming) hands (Step.settle incoming) := by
  unfold Step.settle
  split
  · split
    · next abrupt => exact propagate (handsOn _ rfl abrupt)
    · next quiet =>
      refine pure ?_
      rintro _ ⟨⟩
      simpa using quiet
  · exact pure nofun

/-- Whether a loop goes on after its body; a jump that the loop does not take goes on below. -/
theorem goesOn
    {label : Option String}
    (handsOn : ∀ completion, incoming = some completion → completion.isAbrupt = true →
      (∀ jump, completion.jump? = some jump → Breakable.takes ⟨label, true⟩ jump = false) →
      hands completion) :
    Gives (fun _ => True) hands (Step.goesOn label incoming) := by
  unfold Step.goesOn
  split
  · split
    · exact pure trivial
    · next jump passes =>
      refine propagate (handsOn _ rfl rfl ?_)
      rintro _ ⟨⟩
      rw [Breakable.takes_loop]
      exact eq_false_of_ne_true passes
  · split
    · exact pure trivial
    · next jump passes =>
      refine propagate (handsOn _ rfl rfl ?_)
      rintro _ ⟨⟩
      rw [Breakable.takes_loop]
      exact eq_false_of_ne_true passes
  · next isNoBreak isNoContinue =>
    refine (settle fun completion isIncoming abrupt => ?_).bind fun _ _ => pure trivial
    refine handsOn completion isIncoming abrupt fun jump isJump => ?_
    subst isIncoming
    cases completion with
    | breakTo label => exact absurd rfl (isNoBreak label)
    | continueTo label => exact absurd rfl (isNoContinue label)
    | _ => cases isJump

end Gives

/-- A step of a statement of a kind, inside of some loops and switches. -/
def Directs (tree : Tree) (kind : StmtKind) (around : List Breakable) (free : Prop)
    (step : Step Move) : Prop :=
  Gives (Move.Flows tree kind around free) (fun completion => completion.Ends around free) step

/--
A frame of a statement of a kind, with what is handed to it, inside of some loops
and switches.  Either it leaves the function, or it is free to end normally.
-/
structure Directed (tree : Tree) (kind : StmtKind) (around : List Breakable) (free : Prop)
    (frame : Frame) (incoming : Option Completion) : Prop where
  starts : ∀ part ∈ kind.starts, (tree.stmt part).kind.isElementary = true
  parts : ∀ part ∈ kind.childStmts, tree.Targeted (kind.breakable?.toList ++ around) part
  keeps : frame.Keeps around
  aims : ∀ completion, incoming = some completion → completion.Aims (frame.inner around kind)
  leaves : Smooth incoming → frame.LeavesOf tree kind ∨ free
  recovers :
    ∀ completion, incoming = some completion → completion.isAbrupt = true →
      frame.RecoversOf tree kind ∨ free

namespace Directs

/-- A step that any frame could make, and what follows it. -/
theorem behind
    {post : α → Prop}
    {step : Step α}
    {next : α → Step Move}
    (retains : ∀ held node, Retains held node post step)
    (rest : ∀ value, post value → Directs tree kind around free (next value)) :
    Directs tree kind around free (step >>= next) :=
  (Gives.ofRetains retains Completion.ends_thrown).bind rest

/-- The end of a statement. -/
theorem done
    (isFree : free) :
    Directs tree kind around free Step.done :=
  .pure (.ends ⟨rfl, Completion.aims_of_jump? rfl, fun _ => isFree⟩)

/-- An expression on top of a statement. -/
theorem pushExpression
    {id : ExprId}
    {demand : Demand}
    (keeps : frame.Keeps around)
    (leaves : frame.LeavesOf tree kind ∨ free)
    (recovers : frame.RecoversOf tree kind ∨ free) :
    Directs tree kind around free (Pure.pure (Step.pushExpression frame id demand)) :=
  .pure (.evaluates keeps leaves recovers)

/-- A part on top of a statement. -/
theorem pushStatement
    {part : StmtId}
    (keeps : frame.Keeps around)
    (targeted : tree.Targeted (frame.inner around kind) part)
    (leaves : tree.Leaves part ∨ frame.LeavesOf tree kind ∨ free)
    (recovers : frame.RecoversOf tree kind ∨ free) :
    Directs tree kind around free (Pure.pure (Step.pushStatement frame part)) :=
  .pure (.runs keeps targeted leaves recovers)

/-- A counted step. -/
theorem tick
    (keeps : frame.Keeps around)
    (leaves : frame.LeavesOf tree kind ∨ free) :
    Directs tree kind around free (Pure.pure (.tick frame)) :=
  .pure (.ticks keeps leaves)

end Directs

/-- What is abrupt goes on, and otherwise another completion does. -/
theorem abruptOr_cases
    (incoming : Option Completion)
    (other : Completion) :
    (∃ completion, incoming = some completion ∧ completion.isAbrupt = true ∧
        abruptOr incoming other = completion) ∨
      Smooth incoming ∧ abruptOr incoming other = other := by
  cases incoming with
  | none => exact .inr ⟨nofun, rfl⟩
  | some completion =>
      cases abrupt : completion.isAbrupt with
      | true => exact .inl ⟨completion, rfl, abrupt, by simp [abruptOr, abrupt]⟩
      | false =>
          refine .inr ⟨?_, by simp [abruptOr, abrupt]⟩
          rintro _ ⟨⟩
          exact abrupt

/-- A part that leaves comes next or later. -/
theorem leaves_next
    {parts : List StmtId}
    {cursor : UInt32}
    {next : StmtId}
    (leaves : ∃ part ∈ parts.drop cursor.toNat, tree.Leaves part)
    (found : parts[cursor.toNat]? = some next) :
    tree.Leaves next ∨ ∃ part ∈ parts.drop (cursor + 1).toNat, tree.Leaves part := by
  obtain ⟨part, member, leaves⟩ := leaves
  obtain ⟨inside, rfl⟩ := List.getElem?_eq_some_iff.mp found
  rw [List.drop_eq_getElem_cons inside] at member
  obtain rfl | member := List.mem_cons.mp member
  · exact .inl leaves
  · have step : (cursor + 1).toNat ≤ cursor.toNat + 1 := by
      rw [UInt32.toNat_add]
      exact Nat.mod_le _ _
    exact .inr ⟨part, List.drop_subset_drop_left parts step member, leaves⟩

/-- No part leaves when no part is left. -/
theorem not_leaves_next
    {parts : List StmtId}
    {cursor : Nat}
    (exhausted : parts[cursor]? = none) :
    ¬ ∃ part ∈ parts.drop cursor, tree.Leaves part := by
  rintro ⟨part, member, -⟩
  rw [List.drop_eq_nil_of_le (List.getElem?_eq_none_iff.mp exhausted)] at member
  cases member

namespace Directed

variable (directed : Directed tree kind around free frame incoming)

include directed

section

variable (outside : kind.breakable? = none ∨ kind.runsPart frame.state = false)

include outside

/-- What is handed to a statement aims further out, unless it is the body of a loop or switch. -/
theorem aimsBeyond :
    ∀ completion, incoming = some completion → completion.Aims around := by
  intro completion isIncoming
  have aims := directed.aims completion isIncoming
  unfold Frame.inner at aims
  split at aims
  · next runs =>
    obtain isPlain | outside := outside
    · rwa [isPlain] at aims
    · rw [outside] at runs
      cases runs
  · exact aims.ofNone

/-- Outside of its body, a loop or switch hands on what is abrupt. -/
theorem handsOn :
    ∀ completion, incoming = some completion → completion.isAbrupt = true →
      completion.Ends around free :=
  fun completion isIncoming abrupt =>
    (directed.aimsBeyond outside completion isIncoming).ends abrupt

/-- Outside of its body, a statement takes the value that a part has delivered. -/
theorem valueOf :
    Gives (fun _ => Smooth incoming) (fun completion => completion.Ends around free)
      (Step.valueOf incoming) :=
  Gives.valueOf (directed.handsOn outside) Completion.ends_thrown

/-- Outside of its body, a statement takes the truth value that a part has delivered. -/
theorem conditionOf :
    Gives (fun _ => Smooth incoming) (fun completion => completion.Ends around free)
      (Step.conditionOf incoming) :=
  Gives.conditionOf (directed.handsOn outside) Completion.ends_thrown

end

/-- A loop or switch hands on the jumps that it does not take, and whatever else is abrupt. -/
theorem handsBeyond
    {breakable : Breakable}
    (isBreakable : kind.breakable? = some breakable) :
    ∀ completion, incoming = some completion → completion.isAbrupt = true →
      (∀ jump, completion.jump? = some jump → breakable.takes jump = false) →
      completion.Ends around free := by
  intro completion isIncoming abrupt passes
  refine Completion.Aims.ends ?_ abrupt
  have aims := directed.aims completion isIncoming
  unfold Frame.inner at aims
  rw [isBreakable] at aims
  split at aims
  · exact Completion.Aims.beyond aims passes
  · exact aims.ofNone

/-- A frame that does not wait for a part goes on as if it had ended normally. -/
theorem goesOn
    (never : ¬ frame.RecoversOf tree kind) :
    frame.LeavesOf tree kind ∨ free := by
  by_cases smooth : Smooth incoming
  · exact directed.leaves smooth
  · simp only [Smooth, not_forall, Bool.not_eq_false] at smooth
    obtain ⟨completion, isIncoming, abrupt⟩ := smooth
    exact .inr ((directed.recovers completion isIncoming abrupt).resolve_left never)

/-- A loop or a switch is free to end. -/
theorem free_of_breakable
    {breakable : Breakable}
    (isBreakable : kind.breakable? = some breakable) :
    free := by
  refine (directed.goesOn ?_).resolve_left ?_
  · cases kind <;> first | exact id | cases isBreakable
  · cases kind <;> first | exact id | cases isBreakable

end Directed

namespace Directs

/-! ### Sequences and branches -/

/-- The statement under the cursor, if there is one. -/
theorem nextStatement
    {parts : List StmtId}
    (keeps : frame.Keeps around)
    (targeted : ∀ part ∈ parts, tree.Targeted (frame.inner around kind) part)
    (leaves :
      ∀ next, parts[frame.cursor.toNat]? = some next →
        tree.Leaves next ∨
          Frame.LeavesOf tree { frame with cursor := frame.cursor + 1 } kind ∨ free)
    (recovers :
      Frame.RecoversOf tree { frame with cursor := frame.cursor + 1 } kind ∨ free)
    (ends : parts[frame.cursor.toNat]? = none → free) :
    Directs tree kind around free (Step.nextStatement frame parts) := by
  unfold Step.nextStatement
  split
  · next part found =>
    exact pushStatement (by exact keeps) (targeted part (List.mem_of_getElem? found))
      (leaves part found) recovers
  · next exhausted => exact done (ends exhausted)

section Entered

variable {setting : Setting} {node : Stmt}
  (directed : Directed setting.tree node.kind around free frame incoming)

include directed

/-- A block runs its statements in order. -/
theorem block
    {parts : List StmtId}
    (isKind : node.kind = .block parts)
    (isEntered : frame.state ≠ 0) :
    Directs setting.tree node.kind around free (Step.entered setting frame node incoming) := by
  unfold Step.entered
  rw [isKind] at directed ⊢
  refine (Gives.settle (directed.handsOn (.inl rfl))).bind fun _ smooth => ?_
  have inBlock : frame.inner around (.block parts) = around := by
    simp [Frame.inner, StmtKind.breakable?, StmtKind.runsPart, isEntered]
  refine nextStatement directed.keeps (by rw [inBlock]; exact directed.parts)
    (fun next found => ?_) (.inl isEntered) ?_
  · obtain leaves | isFree := directed.leaves smooth
    · exact (leaves_next leaves found).imp_right .inl
    · exact .inr (.inr isFree)
  · exact fun exhausted => (directed.leaves smooth).resolve_left (not_leaves_next exhausted)

/-- A branch runs one of its parts. -/
theorem branch
    {condition : ExprId}
    {whenTrue : StmtId}
    {whenFalse : Option StmtId}
    (isKind : node.kind = .branch condition whenTrue whenFalse)
    (isEntered : frame.state ≠ 0) :
    Directs setting.tree node.kind around free (Step.entered setting frame node incoming) := by
  unfold Step.entered
  rw [isKind] at directed ⊢
  dsimp only
  split
  · next state =>
    refine pushExpression directed.keeps ?_ (.inl (by simp [Frame.RecoversOf]))
    obtain leaves | isFree := directed.goesOn (by simp [Frame.RecoversOf, state])
    · refine .inl ?_
      cases whenFalse with
      | none => exact leaves
      | some whenFalse => exact ⟨by simp, leaves.2⟩
    · exact .inr isFree
  · next state =>
    refine (directed.conditionOf (.inl rfl)).bind ?_
    intro holds smooth
    have leaves := directed.leaves smooth
    cases holds with
    | true =>
        refine pushStatement directed.keeps (directed.parts _ (by simp [StmtKind.childStmts])) ?_
          (.inl (by simp [Frame.RecoversOf]))
        obtain leaves | isFree := leaves
        · cases whenFalse with
          | none => exact leaves.elim
          | some whenFalse => exact .inl leaves.2.1
        · exact .inr (.inr isFree)
    | false =>
        cases whenFalse with
        | none => exact done (leaves.resolve_left id)
        | some whenFalse =>
            refine pushStatement directed.keeps
              (directed.parts _ (by simp [StmtKind.childStmts])) ?_
              (.inl (by simp [Frame.RecoversOf]))
            obtain leaves | isFree := leaves
            · exact .inl leaves.2.2
            · exact .inr (.inr isFree)
  · next isFirst isSecond =>
    refine (Gives.settle (directed.handsOn (.inl rfl))).bind fun _ smooth => done ?_
    refine (directed.leaves smooth).resolve_left fun leaves => ?_
    cases whenFalse with
    | none => exact leaves
    | some whenFalse =>
        have early : frame.state ≤ 2 := leaves.1
        grind

/-! ### Loops -/

/-- A loop with its test in front. -/
theorem whileLoop
    {label : Option String}
    {condition : ExprId}
    {body : StmtId}
    (isKind : node.kind = .whileLoop label condition body) :
    Directs setting.tree node.kind around free (Step.entered setting frame node incoming) := by
  unfold Step.entered
  rw [isKind] at directed ⊢
  have isFree := directed.free_of_breakable rfl
  dsimp only
  split
  · exact pushExpression directed.keeps (.inr isFree) (.inr isFree)
  · next state =>
    have outside : StmtKind.runsPart (.whileLoop label condition body) frame.state = false := by
      simp [StmtKind.runsPart, state]
    refine (directed.conditionOf (.inr outside)).bind ?_
    intro holds _
    split
    · exact pushStatement directed.keeps (directed.parts _ (by simp [StmtKind.childStmts]))
        (.inr (.inr isFree)) (.inr isFree)
    · exact done isFree
  · refine (Gives.goesOn (directed.handsBeyond rfl)).bind fun goesOn _ => ?_
    split
    · exact tick directed.keeps (.inr isFree)
    · exact done isFree

/-- A loop with its test at the end. -/
theorem doLoop
    {label : Option String}
    {body : StmtId}
    {condition : ExprId}
    (isKind : node.kind = .doLoop label body condition) :
    Directs setting.tree node.kind around free (Step.entered setting frame node incoming) := by
  unfold Step.entered
  rw [isKind] at directed ⊢
  have isFree := directed.free_of_breakable rfl
  have runsBody :
      Directs setting.tree (.doLoop label body condition) around free
        (Pure.pure (Step.pushStatement { frame with state := 2 } body)) :=
    pushStatement directed.keeps (directed.parts _ (by simp [StmtKind.childStmts]))
      (.inr (.inr isFree)) (.inr isFree)
  dsimp only
  split
  · exact runsBody
  · refine (Gives.goesOn (directed.handsBeyond rfl)).bind fun goesOn _ => ?_
    split
    · exact tick directed.keeps (.inr isFree)
    · exact done isFree
  · exact pushExpression directed.keeps (.inr isFree) (.inr isFree)
  · next isBody _ =>
    have outside : StmtKind.runsPart (.doLoop label body condition) frame.state = false := by
      simpa [StmtKind.runsPart] using isBody
    refine (directed.conditionOf (.inr outside)).bind ?_
    intro holds _
    split
    · exact runsBody
    · exact done isFree

section Counting

omit directed

variable (isFree : free) (keeps : frame.Keeps around)

include isFree keeps

/-- The expressions that a counting loop evaluates after its body. -/
theorem forSteps
    (steps : List ExprId) :
    Directs tree kind around free (Step.forSteps frame steps) := by
  unfold Step.forSteps
  split
  · exact pushExpression (by exact keeps) (.inr isFree) (.inr isFree)
  · exact tick (by exact keeps) (.inr isFree)

variable {label : Option String} {initial : List StmtId} {condition : Option ExprId}
  {steps : List ExprId} {body : StmtId}
  (handsOn : ∀ completion, incoming = some completion → completion.isAbrupt = true →
    completion.Ends around free)
  (parts : ∀ part ∈ (StmtKind.forLoop label initial condition steps body).childStmts,
    tree.Targeted (⟨label, true⟩ :: around) part)

include handsOn parts

/-- The test of a counting loop that has been evaluated. -/
theorem forTested :
    Directs tree (.forLoop label initial condition steps body) around free
      (Step.forTested frame body incoming) := by
  have started (goOn : Bool) :
      Directs tree (.forLoop label initial condition steps body) around free
        (if goOn then Pure.pure (Step.pushStatement { frame with state := 4 } body)
        else Step.done) := by
    split
    · exact pushStatement keeps (parts _ (by simp [StmtKind.childStmts]))
        (.inr (.inr isFree)) (.inr isFree)
    · exact done isFree
  unfold Step.forTested
  split
  · exact (Gives.conditionOf handsOn Completion.ends_thrown).bind fun goOn _ => started goOn
  · exact started true

/-- The test of a counting loop. -/
theorem forTest :
    Directs tree (.forLoop label initial condition steps body) around free
      (Step.forTest frame condition body incoming) := by
  unfold Step.forTest
  split
  · exact pushExpression (by exact keeps) (.inr isFree) (.inr isFree)
  · exact forTested isFree (by exact keeps) handsOn parts

end Counting

/-- A counting loop starts with statements that do not jump. -/
theorem forLoop
    {label : Option String}
    {initial : List StmtId}
    {condition : Option ExprId}
    {steps : List ExprId}
    {body : StmtId}
    (isKind : node.kind = .forLoop label initial condition steps body) :
    Directs setting.tree node.kind around free (Step.entered setting frame node incoming) := by
  unfold Step.entered
  rw [isKind] at directed ⊢
  have isFree := directed.free_of_breakable rfl
  have keeps := directed.keeps
  have parts := directed.parts
  have outside (isOther : frame.state ≠ 4) :
      StmtKind.runsPart (.forLoop label initial condition steps body) frame.state = false := by
    simpa [StmtKind.runsPart] using isOther
  dsimp only
  unfold Step.forLoop
  split
  · next state =>
    have handsOn := directed.handsOn (.inr (outside (by rw [state]; decide)))
    refine (Gives.settle handsOn).bind fun _ _ => ?_
    split
    · next part found =>
      have plain := directed.starts part (List.mem_of_getElem? found)
      exact pushStatement (by exact keeps) (Tree.targeted_of_isElementary plain)
        (.inr (.inr isFree)) (.inr isFree)
    · exact forTest isFree keeps nofun parts
  · next state =>
    exact forTest isFree keeps (directed.handsOn (.inr (outside (by rw [state]; decide)))) parts
  · next state =>
    exact forTested isFree keeps (directed.handsOn (.inr (outside (by rw [state]; decide)))) parts
  · refine (Gives.goesOn (directed.handsBeyond rfl)).bind fun goesOn _ => ?_
    split
    · exact forSteps isFree (by exact keeps) steps
    · exact done isFree
  · next isOther =>
    dsimp only
    split
    · exact (directed.valueOf (.inr (outside isOther))).bind fun _ _ =>
        forSteps isFree keeps steps
    · exact forSteps isFree keeps steps

omit directed in
/-- The next round of a loop with a number of rounds. -/
theorem nextRound
    {label : Option String}
    {count : ExprId}
    {body : StmtId}
    (isFree : free)
    (keeps : frame.Keeps around)
    (targeted : tree.Targeted (⟨label, true⟩ :: around) body) :
    Directs tree (.repeatLoop label count body) around free (Step.nextRound frame body) := by
  unfold Step.nextRound
  dsimp only
  split
  · exact done isFree
  · exact pushStatement (by exact keeps) targeted (.inr (.inr isFree)) (.inr isFree)

/-- A loop with a number of rounds. -/
theorem repeatLoop
    {label : Option String}
    {count : ExprId}
    {body : StmtId}
    (isKind : node.kind = .repeatLoop label count body) :
    Directs setting.tree node.kind around free (Step.entered setting frame node incoming) := by
  unfold Step.entered
  rw [isKind] at directed ⊢
  have isFree := directed.free_of_breakable rfl
  have keeps := directed.keeps
  have targeted := directed.parts body (by simp [StmtKind.childStmts])
  dsimp only
  unfold Step.repeatLoop
  split
  · exact pushExpression (by exact keeps) (.inr isFree) (.inr isFree)
  · next state =>
    have outside : StmtKind.runsPart (.repeatLoop label count body) frame.state = false := by
      simp [StmtKind.runsPart, state]
    refine (directed.valueOf (.inr outside)).bind fun value _ => ?_
    split
    · exact .raise _
    · exact behind (fun _ _ => .require _ _) fun rounds _ =>
        nextRound isFree (by exact keeps) targeted
  · exact nextRound isFree keeps targeted
  · refine (Gives.goesOn (directed.handsBeyond rfl)).bind fun goesOn _ => ?_
    split
    · exact tick (by exact keeps) (.inr isFree)
    · exact done isFree

/-- A switch runs its statements from the selected label on. -/
theorem switchOn
    {value : ExprId}
    {cases : List SwitchCase}
    {body : List StmtId}
    (isKind : node.kind = .switchOn value cases body)
    (isEntered : frame.state ≠ 0) :
    Directs setting.tree node.kind around free (Step.entered setting frame node incoming) := by
  unfold Step.entered
  rw [isKind] at directed ⊢
  have isFree := directed.free_of_breakable rfl
  have keeps := directed.keeps
  dsimp only
  unfold Step.switchOn
  split
  · exact pushExpression (by exact keeps) (.inr isFree) (.inr isFree)
  · next state =>
    have outside : StmtKind.runsPart (.switchOn value cases body) frame.state = false := by
      rw [state]
      rfl
    refine (directed.valueOf (.inr outside)).bind fun tested _ => ?_
    refine behind (fun _ _ => .require _ _) fun selected _ => ?_
    dsimp only
    split
    · exact nextStatement (by exact keeps) directed.parts (fun _ _ => .inr (.inr isFree))
        (.inr isFree) fun _ => isFree
    · exact done isFree
  · next isFirst isSecond =>
    have inBody : frame.inner around (.switchOn value cases body) = ⟨none, false⟩ :: around := by
      have late : 3 ≤ frame.state := by grind
      simp [Frame.inner, StmtKind.breakable?, StmtKind.runsPart, late]
    split
    · exact done isFree
    · next isOther =>
      refine (Gives.settle fun completion isIncoming abrupt => ?_).bind fun _ _ => ?_
      · refine directed.handsBeyond rfl completion isIncoming abrupt fun jump isJump => ?_
        subst isIncoming
        cases completion with
        | breakTo label =>
            cases isJump
            cases label with
            | none => exact absurd rfl isOther
            | some name => rfl
        | continueTo label =>
            cases isJump
            cases label <;> rfl
        | _ => cases isJump
      · exact nextStatement keeps (inBody ▸ directed.parts) (fun _ _ => .inr (.inr isFree))
          (.inr isFree) fun _ => isFree

/-! ### Try statements -/

section Guarded

omit directed

variable {body : List StmtId} {clauses : List CatchClause} {final : Option StmtId}

/-- A statement of the body leaves, and so do all handlers; or the final block leaves. -/
def BodyLeaves (tree : Tree) (frame : Frame) (body : List StmtId) (clauses : List CatchClause)
    (final : Option StmtId) : Prop :=
  (∃ part ∈ body.drop frame.cursor.toNat, tree.Leaves part) ∧
      (∀ clause ∈ clauses, tree.Leaves clause.body) ∨
    ∃ part ∈ final, tree.Leaves part

/-- A frame that still runs its body. -/
theorem BodyLeaves.leavesOf
    (leaves : BodyLeaves tree frame body clauses final)
    (early : frame.state ≤ 3) :
    frame.LeavesOf tree (.guarded body clauses final) := by
  obtain ⟨leaves, all⟩ | leaves := leaves
  · exact .inl ⟨early, leaves, all⟩
  · exact .inr (.inr (.inr ⟨UInt32.le_trans early (by decide), leaves⟩))

variable (keeps : frame.Keeps around)
  (parts : ∀ part ∈ (StmtKind.guarded body clauses final).childStmts, tree.Targeted around part)

include keeps parts

/-- The final block, behind which the statement ends with what is held back. -/
theorem runFinal
    (leaves : (∃ part ∈ final, tree.Leaves part) ∨ frame.Withholds ∨ free) :
    Directs tree (.guarded body clauses final) around free (Step.runFinal frame final) := by
  unfold Step.runFinal
  split
  · next part =>
    refine pushStatement (by exact keeps) (parts part (by simp [StmtKind.childStmts])) ?_
      (.inl (.inr (.inr rfl)))
    obtain ⟨_, ⟨⟩, leaves⟩ | withholds | isFree := leaves
    · exact .inl leaves
    · exact .inr (.inl (.inr (.inr (.inl ⟨(by decide : (8 : UInt32) ≤ 9), withholds⟩))))
    · exact .inr (.inr isFree)
  · obtain ⟨isEnd, aims⟩ := keeps.held
    refine .pure (.ends ⟨isEnd, aims, fun isNormal => ?_⟩)
    · obtain ⟨_, ⟨⟩, _⟩ | ⟨completion, isPending, abrupt⟩ | isFree := leaves
      · rw [isPending] at isNormal
        cases isNormal
        cases abrupt
      · exact isFree

omit keeps in
/-- A completion is held back, and the final block runs. -/
theorem endWith
    {completion : Completion}
    (isEnd : completion.isEnd = true)
    (aims : completion.Aims around)
    (leaves : (∃ part ∈ final, tree.Leaves part) ∨ completion.isAbrupt = true ∨ free) :
    Directs tree (.guarded body clauses final) around free
      (Step.endWith frame final completion) := by
  refine runFinal ?_ parts (leaves.imp_right (.imp_left fun abrupt => ⟨completion, rfl, abrupt⟩))
  rintro _ ⟨⟩
  exact ⟨isEnd, aims⟩

/-- The handler of the chosen clause. -/
theorem runHandler
    (leaves :
      (∀ clause ∈ clauses, tree.Leaves clause.body) ∨ (∃ part ∈ final, tree.Leaves part) ∨ free) :
    Directs tree (.guarded body clauses final) around free (Step.runHandler frame clauses) := by
  refine behind (fun _ _ => .require _ _) fun clause found => ?_
  have member := List.mem_of_getElem? found
  have isPart : clause.body ∈ (StmtKind.guarded body clauses final).childStmts := by
    simp only [StmtKind.childStmts, List.mem_append, List.mem_map]
    exact .inl (.inr ⟨clause, member, rfl⟩)
  refine pushStatement (by exact keeps) (parts _ isPart) ?_ (.inl (.inr (.inl rfl)))
  obtain leaves | leaves | isFree := leaves
  · exact .inl (leaves clause member)
  · exact .inr (.inl (.inr (.inr (.inr ⟨(by decide : (7 : UInt32) ≤ 8), leaves⟩))))
  · exact .inr (.inr isFree)

/-- The test of a clause against the exception held back. -/
theorem matchClause
    (leaves :
      (∀ clause ∈ clauses, tree.Leaves clause.body) ∧ frame.Withholds ∨
        (∃ part ∈ final, tree.Leaves part) ∨ free) :
    Directs tree (.guarded body clauses final) around free
      (Step.matchClause frame clauses final) := by
  unfold Step.matchClause
  split
  · refine pushExpression (by exact keeps) ?_ ?_
    · obtain ⟨leaves, withholds⟩ | leaves | isFree := leaves
      · exact .inl (.inr (.inl ⟨(by decide : (4 : UInt32) ≤ 5), (by decide : (5 : UInt32) ≤ 6),
          leaves, withholds⟩))
      · exact .inl (.inr (.inr (.inr ⟨(by decide : (5 : UInt32) ≤ 8), leaves⟩)))
      · exact .inr isFree
    · obtain ⟨leaves, -⟩ | leaves | isFree := leaves
      · exact .inl (.inl ⟨.inr (.inr rfl), .inl leaves⟩)
      · exact .inl (.inl ⟨.inr (.inr rfl), .inr leaves⟩)
      · exact .inr isFree
  · refine runFinal (by exact keeps) parts ?_
    obtain ⟨-, withholds⟩ | leaves | isFree := leaves
    · exact .inr (.inl withholds)
    · exact .inl leaves
    · exact .inr (.inr isFree)

omit keeps in
/-- An exception is held back and matched against all clauses. -/
theorem matchFirst
    (error : RuntimeError)
    (leaves :
      (∀ clause ∈ clauses, tree.Leaves clause.body) ∨ (∃ part ∈ final, tree.Leaves part) ∨ free) :
    Directs tree (.guarded body clauses final) around free
      (Step.matchFirst frame clauses final error) := by
  refine matchClause ?_ parts (leaves.imp_left fun leaves => ⟨leaves, ⟨_, rfl, rfl⟩⟩)
  rintro _ ⟨⟩
  exact ⟨rfl, Completion.aims_of_jump? rfl⟩

/-- The next statement of the body. -/
theorem nextGuarded
    (leaves : BodyLeaves tree frame body clauses final ∨ free) :
    Directs tree (.guarded body clauses final) around free
      (Step.nextGuarded frame body final) := by
  unfold Step.nextGuarded
  split
  · next part found =>
    have isPart : part ∈ (StmtKind.guarded body clauses final).childStmts := by
      simp only [StmtKind.childStmts, List.mem_append]
      exact .inl (.inl (List.mem_of_getElem? found))
    refine pushStatement (by exact keeps) (parts _ isPart) ?_ ?_
    · obtain (⟨leaves, all⟩ | leaves) | isFree := leaves
      · obtain leaves | leaves := leaves_next leaves found
        · exact .inl leaves
        · exact .inr (.inl (.inl ⟨(by decide : (1 : UInt32) ≤ 3), leaves, all⟩))
      · exact .inr (.inl (.inr (.inr (.inr ⟨(by decide : (1 : UInt32) ≤ 8), leaves⟩))))
      · exact .inr (.inr isFree)
    · exact leaves.imp_left fun leaves => .inl ⟨.inl rfl, leaves.imp_left (·.2)⟩
  · next exhausted =>
    refine endWith parts rfl (Completion.aims_of_jump? rfl) ?_
    obtain (⟨leaves, -⟩ | leaves) | isFree := leaves
    · exact absurd leaves (not_leaves_next exhausted)
    · exact .inl leaves
    · exact .inr (.inr isFree)

omit parts in
/-- The poll of the next boolean clause. -/
theorem poll
    {otherwise : Frame → Step Move}
    (leaves : BodyLeaves tree frame body clauses final ∨ free)
    (goesOn : Directs tree (.guarded body clauses final) around free
      (otherwise { frame with state := 1 })) :
    Directs tree (.guarded body clauses final) around free
      (Step.poll frame clauses otherwise) := by
  unfold Step.poll
  split
  · exact pushExpression (by exact keeps)
      (leaves.imp_left fun leaves => BodyLeaves.leavesOf leaves (by decide : (3 : UInt32) ≤ 3))
      (leaves.imp_left fun leaves => .inl ⟨.inr (.inl rfl), leaves.imp_left (·.2)⟩)
  · exact goesOn

/-- What follows a statement of the body. -/
theorem bodyEnded
    (aims : ∀ completion, incoming = some completion → completion.Aims around)
    (leaves : Smooth incoming → BodyLeaves tree frame body clauses final ∨ free)
    (recovers : ∀ completion, incoming = some completion → completion.isAbrupt = true →
      (∀ clause ∈ clauses, tree.Leaves clause.body) ∨ (∃ part ∈ final, tree.Leaves part) ∨ free) :
    Directs tree (.guarded body clauses final) around free
      (Step.bodyEnded frame body clauses final incoming) := by
  unfold Step.bodyEnded
  split
  · exact nextGuarded keeps parts (leaves nofun)
  · exact matchFirst parts _ (recovers _ rfl rfl)
  · next completion _ =>
    split
    · next abrupt =>
      exact endWith parts (Completion.isEnd_of_isAbrupt abrupt) (aims _ rfl) (.inr (.inl abrupt))
    · next quiet =>
      have smooth : Smooth (some completion) := by
        rintro _ ⟨⟩
        simpa using quiet
      split
      · exact poll (by exact keeps) (leaves smooth)
          (nextGuarded (by exact keeps) parts (leaves smooth))
      · exact nextGuarded keeps parts (leaves smooth)

/-- What follows the poll of a boolean clause. -/
theorem pollEnded
    (handsOn : ∀ completion, incoming = some completion → completion.isAbrupt = true →
      completion.Ends around free)
    (leaves : Smooth incoming → BodyLeaves tree frame body clauses final ∨ free)
    (recovers : ∀ completion, incoming = some completion → completion.isAbrupt = true →
      (∀ clause ∈ clauses, tree.Leaves clause.body) ∨ (∃ part ∈ final, tree.Leaves part) ∨ free) :
    Directs tree (.guarded body clauses final) around free
      (Step.pollEnded frame body clauses final incoming) := by
  unfold Step.pollEnded
  split
  · exact matchFirst parts _ (recovers _ rfl rfl)
  · refine (Gives.conditionOf handsOn Completion.ends_thrown).bind fun holds smooth => ?_
    split
    · refine runHandler nofun parts ?_
      obtain (⟨-, leaves⟩ | leaves) | isFree := leaves smooth
      · exact .inl leaves
      · exact .inr (.inl leaves)
      · exact .inr (.inr isFree)
    · exact poll (by exact keeps) (leaves smooth)
        (nextGuarded (by exact keeps) parts (leaves smooth))

/-- What follows the test of a clause. -/
theorem matchEnded
    (handsOn : ∀ completion, incoming = some completion → completion.isAbrupt = true →
      completion.Ends around free)
    (leaves : Smooth incoming →
      (∀ clause ∈ clauses, tree.Leaves clause.body) ∧ frame.Withholds ∨
        (∃ part ∈ final, tree.Leaves part) ∨ free) :
    Directs tree (.guarded body clauses final) around free
      (Step.matchEnded frame clauses final incoming) := by
  unfold Step.matchEnded
  split
  · exact endWith parts rfl (Completion.aims_of_jump? rfl) (.inr (.inl rfl))
  · refine behind (fun _ _ => .require _ _) fun clause _ => ?_
    refine (Gives.valueOf handsOn Completion.ends_thrown).bind fun tested smooth => ?_
    refine behind (fun _ _ => .catches clause tested) fun caught _ => ?_
    split
    · exact runHandler nofun parts ((leaves smooth).imp_left (·.1))
    · exact matchClause (by exact keeps) parts (leaves smooth)

end Guarded

/-- A try statement. -/
theorem guarded
    {body : List StmtId}
    {clauses : List CatchClause}
    {final : Option StmtId}
    (isKind : node.kind = .guarded body clauses final)
    (isEntered : frame.state ≠ 0) :
    Directs setting.tree node.kind around free (Step.entered setting frame node incoming) := by
  unfold Step.entered
  rw [isKind] at directed ⊢
  have keeps := directed.keeps
  have parts := directed.parts
  have aims := directed.aimsBeyond (.inl rfl)
  have early (small : frame.state ≤ 3)
      (leaves : frame.LeavesOf setting.tree (.guarded body clauses final) ∨ free) :
      BodyLeaves setting.tree frame body clauses final ∨ free := by
    unfold Frame.LeavesOf at leaves
    unfold BodyLeaves
    grind
  have matching (low : 4 ≤ frame.state) (high : frame.state ≤ 6)
      (leaves : frame.LeavesOf setting.tree (.guarded body clauses final) ∨ free) :
      (∀ clause ∈ clauses, setting.tree.Leaves clause.body) ∧ frame.Withholds ∨
        (∃ part ∈ final, setting.tree.Leaves part) ∨ free := by
    unfold Frame.LeavesOf at leaves
    grind
  have recovers (isBody : frame.state = 1 ∨ frame.state = 3) (completion : Completion)
      (isIncoming : incoming = some completion) (abrupt : completion.isAbrupt = true) :
      (∀ clause ∈ clauses, setting.tree.Leaves clause.body) ∨
        (∃ part ∈ final, setting.tree.Leaves part) ∨ free := by
    have recovers := directed.recovers completion isIncoming abrupt
    unfold Frame.RecoversOf at recovers
    grind
  have rests (isOther : frame.state = 2 ∨ frame.state = 4 ∨ frame.state = 6 ∨ frame.state = 8) :
      ¬ frame.RecoversOf setting.tree (.guarded body clauses final) := by
    unfold Frame.RecoversOf
    grind
  dsimp only
  unfold Step.guarded
  split
  · next state =>
    exact bodyEnded keeps parts aims (fun smooth => early (by rw [state]; decide)
      (directed.leaves smooth)) (recovers (.inl state))
  · next state =>
    have leaves := early (by rw [state]; decide) (directed.goesOn (rests (.inl state)))
    refine poll keeps leaves (bodyEnded (by exact keeps) parts aims (fun _ => leaves) ?_)
    intro completion isIncoming abrupt
    exact .inr (.inr ((directed.recovers completion isIncoming abrupt).resolve_left
      (rests (.inl state))))
  · next state =>
    exact pollEnded keeps parts (directed.handsOn (.inl rfl))
      (fun smooth => early (by rw [state]; decide) (directed.leaves smooth)) (recovers (.inr state))
  · next state =>
    exact matchClause keeps parts (matching (by rw [state]; decide) (by rw [state]; decide)
      (directed.goesOn (rests (.inr (.inl state)))))
  · next state =>
    exact matchEnded keeps parts (directed.handsOn (.inl rfl)) fun smooth =>
      matching (by rw [state]; decide) (by rw [state]; decide) (directed.leaves smooth)
  · next state =>
    refine runHandler keeps parts ?_
    exact (matching (by rw [state]; decide) (by rw [state]; decide)
      (directed.goesOn (rests (.inr (.inr (.inl state)))))).imp_left (·.1)
  · next state =>
    obtain ⟨completion, isIncoming, abrupt, ended⟩ | ⟨smooth, ended⟩ :=
      abruptOr_cases incoming .normal
    · rw [ended]
      exact endWith parts (Completion.isEnd_of_isAbrupt abrupt) (aims completion isIncoming)
        (.inr (.inl abrupt))
    · rw [ended]
      refine endWith parts rfl (Completion.aims_of_jump? rfl) ?_
      have leaves := directed.leaves smooth
      unfold Frame.LeavesOf at leaves
      grind
  · next state =>
    refine runFinal keeps parts ?_
    have leaves := directed.goesOn (rests (.inr (.inr (.inr state))))
    unfold Frame.LeavesOf at leaves
    grind
  · refine .pure (.ends ?_)
    obtain ⟨completion, isIncoming, abrupt, ended⟩ | ⟨smooth, ended⟩ :=
      abruptOr_cases incoming (frame.pending.getD .normal)
    · rw [ended]
      exact (aims completion isIncoming).ends abrupt
    · rw [ended]
      have leaves := directed.leaves smooth
      unfold Frame.LeavesOf at leaves
      have late : frame.Withholds ∨ free := by grind
      obtain ⟨isEnd, aims⟩ := keeps.held
      refine ⟨isEnd, aims, fun isNormal => late.resolve_left ?_⟩
      rintro ⟨completion, isPending, abrupt⟩
      rw [isPending] at isNormal
      cases isNormal
      cases abrupt

/-! ### Other statements -/

/-- An expression that is evaluated for its effects. -/
theorem expression
    {value : ExprId}
    (isKind : node.kind = .expression value) :
    Directs setting.tree node.kind around free (Step.entered setting frame node incoming) := by
  unfold Step.entered
  rw [isKind] at directed ⊢
  dsimp only
  split
  · next state =>
    exact pushExpression directed.keeps (directed.goesOn (by simp [Frame.RecoversOf, state]))
      (.inl (by simp [Frame.RecoversOf]))
  · refine (directed.valueOf (.inl rfl)).bind fun _ smooth => ?_
    exact done ((directed.leaves smooth).resolve_left id)

/-- A declaration of a variable. -/
theorem declare
    {slot : LocalSlot}
    {limits : Limits}
    {initial : Option ExprId}
    (isKind : node.kind = .declare slot limits initial) :
    Directs setting.tree node.kind around free (Step.entered setting frame node incoming) := by
  unfold Step.entered
  rw [isKind] at directed ⊢
  dsimp only
  unfold Step.declare
  refine behind (fun _ _ => (Retains.activationOf frame).weaken) fun activation _ => ?_
  refine behind (fun _ _ => .require _ _) fun former _ => behind (fun _ _ => .heap) fun heap _ => ?_
  have place (isFree : free) (cell : CellId) :
      Directs setting.tree (.declare slot limits initial) around free (do
        modify fun memory =>
          { memory with
            activations := memory.activations.setIfInBounds frame.act.toNat
              { activation with locals := activation.locals.setIfInBounds slot.index cell } }
        Step.done) := by
    refine Gives.bind (fun _ => .ok trivial) fun _ (_ : True) => ?_
    exact done isFree
  split
  · next state =>
    exact pushExpression directed.keeps (directed.goesOn (by simp [Frame.RecoversOf, state]))
      (.inl (by simp [Frame.RecoversOf]))
  · next state =>
    have isFree := (directed.goesOn (by simp [Frame.RecoversOf, state])).resolve_left id
    exact behind (fun _ _ => .allocate _) fun cell _ => place isFree cell
  · refine (directed.valueOf (.inl rfl)).bind fun value smooth => ?_
    have isFree := (directed.leaves smooth).resolve_left id
    refine behind (fun _ _ => .require _ _) fun initial _ => ?_
    refine behind (fun _ _ => .allocate _) fun cell _ => ?_
    refine behind (fun _ _ => .typeOf _ _) fun source _ => ?_
    exact behind (fun _ _ => .storeDeclared _ _ _ _) fun _ _ => place isFree cell

omit directed in
/-- A return without a value. -/
theorem returnNothing
    (isKind : node.kind = .returnWith none) :
    Directs setting.tree node.kind around free (Step.entered setting frame node incoming) := by
  unfold Step.entered
  rw [isKind]
  exact .pure (.ends (Completion.ends_of_jump? rfl rfl))

/-- A return of a value. -/
theorem returnValue
    {value : ExprId}
    (isKind : node.kind = .returnWith (some value)) :
    Directs setting.tree node.kind around free (Step.entered setting frame node incoming) := by
  unfold Step.entered
  rw [isKind] at directed ⊢
  dsimp only
  split
  · exact pushExpression directed.keeps (.inl trivial) (.inl trivial)
  · refine (directed.valueOf (.inl rfl)).bind fun result _ => ?_
    refine behind (fun _ _ => (Retains.activationOf frame).weaken) fun activation _ => ?_
    refine behind (fun _ _ => .require _ _) fun id _ => ?_
    refine behind (fun _ _ => .part _) fun function _ => ?_
    refine behind (fun _ _ => .typeOf _ _) fun source _ => ?_
    refine behind (fun _ _ => .convert _ _ _) fun result _ => ?_
    exact .pure (.ends (Completion.ends_of_jump? rfl rfl))

/-- An exception of the program. -/
theorem throwCode
    {value : ExprId}
    (isKind : node.kind = .throwCode value) :
    Directs setting.tree node.kind around free (Step.entered setting frame node incoming) := by
  unfold Step.entered
  rw [isKind] at directed ⊢
  dsimp only
  split
  · exact pushExpression directed.keeps (.inl trivial) (.inl trivial)
  · refine (directed.valueOf (.inl rfl)).bind fun value _ => ?_
    unfold Step.thrown
    refine behind (fun _ _ => .require _ _) fun code _ => ?_
    split
    · exact .pure (.ends (Completion.ends_thrown _))
    · exact .raise _

omit directed in
/-- A jump aims at one of the loops and switches around it. -/
theorem jump
    {jump : Jump}
    (isKind : node.kind.jump? = some jump)
    (aims : jump.Aims around) :
    Directs setting.tree node.kind around free (Step.entered setting frame node incoming) := by
  unfold Step.entered
  cases kind : node.kind with
  | breakTo label =>
      rw [kind] at isKind
      cases isKind
      refine .pure (.ends ⟨rfl, ?_, nofun⟩)
      rintro _ ⟨⟩
      exact aims
  | continueTo label =>
      rw [kind] at isKind
      cases isKind
      refine .pure (.ends ⟨rfl, ?_, nofun⟩)
      rintro _ ⟨⟩
      exact aims
  | _ =>
      rw [kind] at isKind
      cases isKind

/-- A statement that has been entered. -/
theorem entered
    (aims : ∀ jump, node.kind.jump? = some jump → jump.Aims around)
    (isEntered : frame.state ≠ 0) :
    Directs setting.tree node.kind around free (Step.entered setting frame node incoming) := by
  cases isKind : node.kind with
  | expression value => exact isKind ▸ expression directed isKind
  | declare slot limits initial => exact isKind ▸ declare directed isKind
  | block parts => exact isKind ▸ block directed isKind isEntered
  | branch condition whenTrue whenFalse => exact isKind ▸ branch directed isKind isEntered
  | whileLoop label condition body => exact isKind ▸ whileLoop directed isKind
  | doLoop label body condition => exact isKind ▸ doLoop directed isKind
  | forLoop label initial condition steps body => exact isKind ▸ forLoop directed isKind
  | repeatLoop label count body => exact isKind ▸ repeatLoop directed isKind
  | switchOn value cases body => exact isKind ▸ switchOn directed isKind isEntered
  | breakTo label => exact isKind ▸ jump (by rw [isKind]; rfl) (aims _ (by rw [isKind]; rfl))
  | continueTo label => exact isKind ▸ jump (by rw [isKind]; rfl) (aims _ (by rw [isKind]; rfl))
  | returnWith value =>
      cases value with
      | none => exact isKind ▸ returnNothing isKind
      | some value => exact isKind ▸ returnValue directed isKind
  | throwCode value => exact isKind ▸ throwCode directed isKind
  | guarded body clauses final => exact isKind ▸ guarded directed isKind isEntered

end Entered

/-- A statement. -/
theorem statement
    {setting : Setting}
    {id : StmtId}
    (targeted : setting.tree.Targeted around id)
    (directed : Directed setting.tree (setting.tree.stmt id).kind around free frame incoming) :
    Directs setting.tree (setting.tree.stmt id).kind around free
      (Step.statement setting frame id incoming) := by
  unfold Step.statement
  split
  · next state =>
    refine tick directed.keeps ?_
    by_cases waits : frame.RecoversOf setting.tree (setting.tree.stmt id).kind
    · refine .inl ?_
      revert waits
      cases (setting.tree.stmt id).kind <;>
        simp [Frame.RecoversOf, Frame.LeavesOf, state]
    · refine (directed.goesOn waits).imp_left fun leaves => ?_
      revert leaves
      cases (setting.tree.stmt id).kind with
      | branch condition whenTrue whenFalse => cases whenFalse <;> simp [Frame.LeavesOf, state]
      | _ => simp [Frame.LeavesOf, state]
  · next isEntered =>
    cases found : setting.tree.stmt? id with
    | none => exact fun _ => .fault
    | some node =>
        have isNode : setting.tree.stmt id = node := by simp [Tree.stmt, found]
        cases targeted with
        | intro aims _ _ =>
            rw [isNode] at aims directed ⊢
            exact entered directed aims isEntered

end Directs

end Step

end BotScript
