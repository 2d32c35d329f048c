import BotScript.Proofs.Discipline
import BotScript.Proofs.JumpSteps

namespace BotScript

open Spelled (word mark name)

/-!
# Structured control flow

A jump gets to the innermost loop or switch of its activation that takes it,
unless a final block on the way ends abruptly first.  No jump gets to a function,
and the body of a function with a result ends only by leaving it.
-/

namespace Tree

variable {tree : Tree} {frame : Frame} {below : List Frame} {id : StmtId}

/--
The loops and switches of the innermost activation that take the jumps of a
statement on top of some frames, the innermost one first.
-/
def around (tree : Tree) : List Frame → List Breakable
  | [] => []
  | frame :: below =>
      match frame.node with
      | .statement id => frame.inner (tree.around below) (tree.stmt id).kind
      | _ => []

/-- Whether a statement on top of some frames is free to end normally. -/
def MayEnd (tree : Tree) : List Frame → Prop
  | [] => True
  | frame :: below =>
      match frame.node with
      | .statement id => frame.LeavesOf tree (tree.stmt id).kind ∨ tree.MayEnd below
      | .function id =>
          ∀ function, tree.function? id = some function → function.result.isVoid = true
      | _ => True

/-- The frame of a statement adds its loop or switch. -/
theorem around_cons
    (isNode : frame.node = .statement id) :
    tree.around (frame :: below) = frame.inner (tree.around below) (tree.stmt id).kind := by
  rw [around, isNode]

/-- A frame of another node hides the loops and switches below it. -/
theorem around_cons_other
    (isOther : ∀ id, frame.node ≠ .statement id) :
    tree.around (frame :: below) = [] := by
  unfold around
  split
  · next id isNode => exact absurd isNode (isOther id)
  · rfl

/-- A part can end normally if the statement leaves behind it, or is free to end normally. -/
theorem mayEnd_cons
    (isNode : frame.node = .statement id) :
    tree.MayEnd (frame :: below) ↔
      frame.LeavesOf tree (tree.stmt id).kind ∨ tree.MayEnd below := by
  rw [MayEnd, isNode]

end Tree

namespace Frame

/-- A statement over some frames has its targets among their loops and switches. -/
structure Placed (tree : Tree) (below : List Frame) (frame : Frame) : Prop where
  targeted : ∀ id, frame.node = .statement id → tree.Targeted (tree.around below) id
  keeps : ∀ id, frame.node = .statement id → frame.Keeps (tree.around below)

/-- A frame over some others waits for what it runs. -/
structure Waits (tree : Tree) (below : List Frame) (frame : Frame) (child : Node) : Prop where
  body :
    ∀ id, frame.node = .function id → frame.state ≠ 0 ∧ ∃ part, child = .statement part
  leaves :
    ∀ id, frame.node = .statement id → (∀ part, child ≠ .statement part) →
      frame.LeavesOf tree (tree.stmt id).kind ∨ tree.MayEnd below
  recovers :
    ∀ id, frame.node = .statement id →
      frame.RecoversOf tree (tree.stmt id).kind ∨ tree.MayEnd below

end Frame

/-- Frames of which each has its targets below, and waits for the one above. -/
inductive Guided (tree : Tree) : List Frame → Prop where
  | empty : Guided tree []
  | outermost
      {frame : Frame} :
      frame.Placed tree [] →
      Guided tree [frame]
  | more
      {frame parent : Frame}
      {below : List Frame} :
      frame.Placed tree (parent :: below) →
      parent.Waits tree below frame.node →
      Guided tree (parent :: below) →
      Guided tree (frame :: parent :: below)

/-- What a move of a frame over some others leads to. -/
inductive Move.Guides (tree : Tree) (frame : Frame) (below : List Frame) : Move → Prop where
  | push
      {stay child : Frame} :
      stay.node = frame.node →
      stay.Placed tree below →
      stay.Waits tree below child.node →
      child.Placed tree (stay :: below) →
      (∀ id, child.node = .statement id →
        child.LeavesOf tree (tree.stmt id).kind ∨ tree.MayEnd (stay :: below)) →
      Guides tree frame below (.push stay child)
  | tick
      {stay : Frame}
      {id : StmtId} :
      stay.node = frame.node →
      frame.node = .statement id →
      stay.Placed tree below →
      stay.LeavesOf tree (tree.stmt id).kind ∨ tree.MayEnd below →
      Guides tree frame below (.tick stay)
  | complete
      {completion : Completion} :
      completion.Aims (tree.around below) →
      (∀ id, frame.node = .statement id → completion.isEnd = true ∧
        (completion = .normal → tree.MayEnd below)) →
      Guides tree frame below (.complete completion)

/-- A frame, over some others, with what is handed to it. -/
structure Frame.Handed (tree : Tree) (below : List Frame) (frame : Frame)
    (incoming : Option Completion) : Prop where
  aims :
    ∀ completion, incoming = some completion → completion.Aims (tree.around (frame :: below))
  bodies :
    ∀ id, frame.node = .function id → ∀ completion, incoming = some completion →
      frame.state ≠ 0 ∧ completion.isEnd = true ∧
        (completion = .normal → tree.MayEnd (frame :: below))
  leaves :
    ∀ id, frame.node = .statement id → Smooth incoming →
      frame.LeavesOf tree (tree.stmt id).kind ∨ tree.MayEnd below
  recovers :
    ∀ id, frame.node = .statement id → ∀ completion, incoming = some completion →
      completion.isAbrupt = true →
      frame.RecoversOf tree (tree.stmt id).kind ∨ tree.MayEnd below

/-! ## Moves -/

section Moves

variable {setting : Setting} {tree : Tree} {frame parent stay : Frame} {below : List Frame}
  {incoming : Option Completion} {memory after : Memory} {move : Move} {held : List Outline}

/-- The innermost frame has its targets below. -/
theorem Guided.placed
    (guided : Guided tree (frame :: below)) :
    frame.Placed tree below := by
  cases guided with
  | outermost placed => exact placed
  | more placed => exact placed

/-- The innermost frame can go on to another step. -/
theorem Guided.withTop
    (guided : Guided tree (frame :: below))
    (same : stay.node = frame.node)
    (placed : stay.Placed tree below) :
    Guided tree (stay :: below) := by
  cases guided with
  | outermost => exact .outermost placed
  | more _ waits rest => exact .more placed (same ▸ waits) rest

/-- The frames below the innermost one are guided as well. -/
theorem Guided.tail
    (guided : Guided tree (frame :: below)) :
    Guided tree below := by
  cases guided with
  | outermost => exact .empty
  | more _ _ rest => exact rest

/-- A frame that runs no statement has no targets. -/
theorem Frame.Placed.ofOther
    (isOther : ∀ id, frame.node ≠ .statement id) :
    frame.Placed tree below :=
  ⟨fun id isNode => absurd isNode (isOther id), fun id isNode => absurd isNode (isOther id)⟩

/-- A statement that leaves its function does so from its start on. -/
theorem Frame.leavesOf_enter
    {id : StmtId}
    (leaves : tree.Leaves id)
    (act : UInt32) :
    (Frame.enter (.statement id) act).LeavesOf tree (tree.stmt id).kind := by
  obtain ⟨bound, leaves⟩ := leaves
  cases bound with
  | zero => cases leaves
  | succ bound =>
      unfold Tree.leavesWithin at leaves
      split at leaves
      · next isKind => rw [isKind]; trivial
      · next isKind => rw [isKind]; trivial
      · next parts isKind =>
        rw [isKind]
        obtain ⟨part, member, leaves⟩ := List.any_eq_true.mp leaves
        exact ⟨part, member, bound, leaves⟩
      · next isKind =>
        rw [isKind]
        obtain ⟨whenTrue, whenFalse⟩ := Bool.and_eq_true_iff.mp leaves
        exact ⟨(by decide : (0 : UInt32) ≤ 2), ⟨bound, whenTrue⟩, ⟨bound, whenFalse⟩⟩
      · next body clauses final isKind =>
        rw [isKind]
        obtain leaves | leaves := Bool.or_eq_true_iff.mp leaves
        · obtain ⟨some, every⟩ := Bool.and_eq_true_iff.mp leaves
          obtain ⟨part, member, leaves⟩ := List.any_eq_true.mp some
          refine .inl ⟨(by decide : (0 : UInt32) ≤ 3), ⟨part, member, bound, leaves⟩, ?_⟩
          exact fun clause isClause => ⟨bound, List.all_eq_true.mp every clause isClause⟩
        · cases final with
          | none => cases leaves
          | some part =>
              exact .inr (.inr (.inr ⟨(by decide : (0 : UInt32) ≤ 8), part, rfl, bound, leaves⟩))
      · cases leaves

/-- The move of a frame is the result of its step or of what interrupts it. -/
theorem Frame.play_gives
    {post : Move → Prop}
    {hands : Completion → Prop}
    (gives : Step.Gives post hands (Step.ofFrame setting frame incoming))
    (completes : ∀ completion, hands completion → post (.complete completion))
    (thrown : ∀ error, post (.complete (.thrown error)))
    (played : frame.play setting incoming memory = (.ok move, after)) :
    post move := by
  have given := gives memory
  unfold Frame.play at played
  revert given played
  generalize (Step.ofFrame setting frame incoming).run.run memory = taken
  obtain ⟨result, _⟩ := taken
  intro played given
  cases given with
  | ok holds =>
      cases played
      exact holds
  | propagate handed =>
      cases played
      exact completes _ handed
  | @fault fault =>
      cases fault with
      | error code =>
          cases played
          exact thrown _
      | _ => cases played

/-- What is handed to a frame of a statement, as far as the statement goes on with it. -/
theorem Frame.Handed.directed
    {id : StmtId}
    (isNode : frame.node = .statement id)
    (placed : frame.Placed tree below)
    (handed : frame.Handed tree below incoming) :
    Step.Directed tree (tree.stmt id).kind (tree.around below) (tree.MayEnd below) frame
      incoming := by
  cases placed.targeted id isNode with
  | intro _ starts parts =>
      refine ⟨starts, parts, placed.keeps id isNode, ?_, handed.leaves id isNode,
        handed.recovers id isNode⟩
      rw [← Tree.around_cons isNode]
      exact handed.aims

/-- A statement guides what it runs. -/
theorem Move.Guides.ofStatement
    {id : StmtId}
    (isNode : frame.node = .statement id)
    (placed : frame.Placed setting.tree below)
    (handed : frame.Handed setting.tree below incoming)
    (played : frame.play setting incoming memory = (.ok move, after))
    (obeyed : Step.Obeyed setting frame held (.ok move, after)) :
    move.Guides setting.tree frame below := by
  have targeted := placed.targeted id isNode
  have directs := Step.Directs.statement targeted (handed.directed isNode placed)
  have isStep : Step.ofFrame setting frame incoming = Step.statement setting frame id incoming := by
    rw [Step.ofFrame, isNode]
  have flows :=
    Frame.play_gives (isStep ▸ directs) (fun _ ends => .ends ends)
      (fun error => .ends (Completion.ends_thrown error)) played
  have stands {stay : Frame} (stays : stay.Stays frame)
      (keeps : stay.Keeps (setting.tree.around below)) : stay.Placed setting.tree below := by
    refine ⟨fun other isOther => ?_, fun _ _ => keeps⟩
    exact placed.targeted other (stays.1.symm.trans isOther)
  have same {stay : Frame} {other : StmtId} (stays : stay.Stays frame)
      (isOther : stay.node = .statement other) : other = id := by
    rw [stays.1, isNode] at isOther
    exact (Node.statement.inj isOther).symm
  cases flows with
  | @runs stay part act keeps targeted leaves recovers =>
      cases obeyed with
      | pushPart stays =>
          have isStay := stays.1.trans isNode
          refine .push stays.1 (stands stays keeps) ⟨?_, ?_, ?_⟩ ⟨?_, fun _ _ => nofun⟩ ?_
          · exact fun other isOther => absurd (isStay.symm.trans isOther) nofun
          · exact fun _ _ isNone => absurd rfl (isNone part)
          · rintro other isOther
            exact same stays isOther ▸ recovers
          · rintro other ⟨⟩
            rw [Tree.around_cons isStay]
            exact targeted
          · rintro other ⟨⟩
            rw [Tree.mayEnd_cons isStay]
            exact leaves.imp_left fun leaves => Frame.leavesOf_enter leaves _
      | pushOwner _ owns => cases owns
  | @evaluates stay expr demand act keeps leaves recovers =>
      cases obeyed with
      | pushPart stays =>
          have isStay := stays.1.trans isNode
          refine .push stays.1 (stands stays keeps) ⟨?_, ?_, ?_⟩ (.ofOther fun _ => nofun) fun _ => nofun
          · exact fun other isOther => absurd (isStay.symm.trans isOther) nofun
          · exact fun other isOther _ => same stays isOther ▸ leaves
          · exact fun other isOther => same stays isOther ▸ recovers
      | pushOwner _ owns => cases owns
  | @ticks stay keeps leaves =>
      cases obeyed with
      | tick stays => exact .tick stays.1 isNode (stands stays keeps) leaves
  | ends ends => exact .complete ends.aims fun _ _ => ⟨ends.isEnd, ends.normal⟩

/-- A function guides its body. -/
theorem Move.Guides.ofFunction
    {id : FuncId}
    (structured : setting.tree.Structured)
    (fits : setting.tree.stmts.size < UInt32.size)
    (isNode : frame.node = .function id)
    (played : frame.play setting incoming memory = (.ok move, after))
    (obeyed : Step.Obeyed setting frame held (.ok move, after)) :
    move.Guides setting.tree frame below := by
  have isOther (other : StmtId) : frame.node ≠ .statement other := by simp [isNode]
  have isStep : Step.ofFrame setting frame incoming = Step.function setting frame id incoming := by
    rw [Step.ofFrame, isNode]
  have gives :
      Step.Gives
        (fun move => ∀ stay child, move = .push stay child →
          stay.state ≠ 0 ∧ ∃ function body act, setting.tree.function? id = some function ∧
            function.body = some body ∧ child = .enter (.statement body) act)
        (fun _ => True) (Step.function setting frame id incoming) := by
    unfold Step.function
    refine Step.Gives.bind (.ofRetains (fun _ _ => .part _) fun _ => trivial) fun function found => ?_
    have ends (completion : Completion) (stay child : Frame) :
        Move.complete completion = .push stay child →
          stay.state ≠ 0 ∧ ∃ function body act, setting.tree.function? id = some function ∧
            function.body = some body ∧ child = .enter (.statement body) act := nofun
    split
    · refine Step.Gives.bind (.ofRetains (fun _ _ => .require _ _) fun _ => trivial) ?_
      refine fun body isBody => .pure ?_
      rintro _ _ ⟨⟩
      exact ⟨(by decide : (1 : UInt32) ≠ 0), function, body, _, found, isBody, rfl⟩
    · split
      · exact .pure (ends _)
      · exact .pure (ends _)
      · split
        · exact .pure (ends _)
        · exact .raise _
  have runsBody :=
    Frame.play_gives (isStep ▸ gives) (fun _ _ _ _ isPush => by cases isPush)
      (fun _ _ _ isPush => by cases isPush) played
  cases obeyed with
  | @pushPart stay node after stays =>
      obtain ⟨isEntered, function, body, act, found, isBody, isChild⟩ := runsBody _ _ rfl
      cases isChild
      have isFunction : function ∈ setting.tree.functions := Array.mem_of_getElem? found
      have closes := structured function isFunction body isBody setting.tree
        ⟨fits, fun _ _ found => found⟩
      have isStay := stays.1.trans isNode
      have stayOther (other : StmtId) : stay.node ≠ .statement other := stays.1 ▸ isOther other
      refine .push stays.1 (.ofOther stayOther) ⟨?_, ?_, ?_⟩ ⟨?_, ?_⟩ ?_
      · exact fun _ _ => ⟨isEntered, body, rfl⟩
      · exact fun other isStatement => absurd isStatement (stayOther other)
      · exact fun other isStatement => absurd isStatement (stayOther other)
      · rintro _ ⟨⟩
        rw [Tree.around_cons_other stayOther]
        exact closes.targeted
      · rintro _ _ _ ⟨⟩
      · rintro _ ⟨⟩
        cases isVoid : function.result.isVoid with
        | false => exact .inl (Frame.leavesOf_enter (closes.leaves isVoid) _)
        | true =>
            refine .inr ?_
            rw [Tree.MayEnd, isStay]
            intro other isSame
            cases found.symm.trans isSame
            exact isVoid
  | pushOwner _ owns =>
      obtain ⟨_, _, _, _, _, _, isChild⟩ := runsBody _ _ rfl
      cases isChild
      cases owns
  | tick _ isStatement =>
      obtain ⟨other, isStatement⟩ := isStatement
      exact absurd isStatement (isOther other)
  | @complete completion _ delivers =>
      refine .complete (Completion.aims_of_jump? ?_) fun other isStatement =>
        absurd isStatement (isOther other)
      rw [isNode] at delivers
      cases completion <;> first | rfl | exact False.elim delivers

/-- A frame that runs no statements leads to no jump. -/
theorem Move.Guides.ofOther
    (isOther : frame.node.runsStatements = false)
    (obeyed : Step.Obeyed setting frame held (.ok move, after)) :
    move.Guides tree frame below := by
  have isNode (id : StmtId) : frame.node ≠ .statement id := by
    rintro same
    rw [same] at isOther
    cases isOther
  have isFunction (id : FuncId) : frame.node ≠ .function id := by
    rintro same
    rw [same] at isOther
    cases isOther
  have pushes {stay : Frame} {node : Node} {act : UInt32} (stays : stay.Stays frame)
      (isPart : ∀ id, node ≠ .statement id) :
      Move.Guides tree frame below (.push stay (.enter node act)) := by
    have stayOther (id : StmtId) : stay.node ≠ .statement id := stays.1 ▸ isNode id
    refine .push stays.1 (.ofOther stayOther) ⟨?_, ?_, ?_⟩ (.ofOther isPart) ?_
    · exact fun id isStay => absurd (stays.1.symm.trans isStay) (isFunction id)
    · exact fun id isStay => absurd isStay (stayOther id)
    · exact fun id isStay => absurd isStay (stayOther id)
    · exact fun id isChild => absurd isChild (isPart id)
  cases obeyed with
  | pushPart stays _ carries =>
      refine pushes stays fun id isPart => ?_
      simp [carries id isPart] at isOther
  | pushOwner stays owns =>
      refine pushes stays ?_
      rintro id rfl
      cases owns
  | tick _ isStatement =>
      obtain ⟨id, isStatement⟩ := isStatement
      exact absurd isStatement (isNode id)
  | @complete completion _ delivers =>
      refine .complete (Completion.aims_of_jump? ?_) fun id isStatement =>
        absurd isStatement (isNode id)
      cases abrupt : completion.isAbrupt with
      | true =>
          obtain ⟨error, rfl⟩ := delivers.thrown_of_abrupt isNode abrupt
          rfl
      | false => cases completion <;> first | rfl | cases abrupt

/-- Every frame guides what it runs. -/
theorem Move.Guides.ofPlay
    (structured : setting.tree.Structured)
    (fits : setting.tree.stmts.size < UInt32.size)
    (placed : frame.Placed setting.tree below)
    (handed : frame.Handed setting.tree below incoming)
    (played : frame.play setting incoming memory = (.ok move, after))
    (obeyed : Step.Obeyed setting frame held (.ok move, after)) :
    move.Guides setting.tree frame below := by
  cases isNode : frame.node with
  | statement id => exact .ofStatement isNode placed handed played obeyed
  | function id => exact .ofFunction structured fits isNode played obeyed
  | _ => exact .ofOther (by rw [isNode]; rfl) obeyed

end Moves

/-! ## Machines -/

namespace Machine

variable {setting : Setting} {machine next : Machine}

/-- Each frame of a machine has its targets below, and waits for the one above. -/
structure Flowing (setting : Setting) (machine : Machine) : Prop where
  guided : Guided setting.tree machine.frames
  handed :
    ∀ frame below, machine.frames = frame :: below →
      frame.Handed setting.tree below machine.incoming
  /-- No jump leaves the root. -/
  rooted :
    machine.frames = [] →
      ∀ completion, machine.incoming = some completion → completion.jump? = none

/-- The start of a machine. -/
theorem flowing_start
    (entry : FuncId)
    (host : Host) :
    (start setting entry host).Flowing setting := by
  refine ⟨.outermost (.ofOther fun _ => nofun), ?_, nofun⟩
  rintro _ _ ⟨⟩
  exact ⟨nofun, nofun, nofun, nofun⟩

/-- The move of the innermost frame keeps the others waiting for what they run. -/
theorem Flowing.afterMove
    {memory after : Memory}
    {frame : Frame}
    {below : List Frame}
    {incoming : Option Completion}
    {outcome : Outcome}
    {steps : UInt64}
    {move : Move}
    (flowing : Flowing setting ⟨memory, frame :: below, incoming, outcome, steps⟩)
    (guides : move.Guides setting.tree frame below)
    (goesOn :
      afterMove frame below outcome steps (.ok move, after) = .moved next ∨
        afterMove frame below outcome steps (.ok move, after) = .counted next) :
    next.Flowing setting := by
  obtain ⟨guided, -, -⟩ := flowing
  dsimp only at guided
  cases guides with
  | push same placed waits childPlaced leaves =>
      obtain moved | counted := goesOn
      · cases moved
        refine ⟨.more childPlaced waits (guided.withTop same placed), ?_, nofun⟩
        rintro _ _ ⟨⟩
        exact ⟨nofun, nofun, fun id isNode _ => leaves id isNode, nofun⟩
      · cases counted
  | @tick stay id same isNode placed leaves =>
      obtain moved | counted := goesOn
      · cases moved
      · cases counted
        refine ⟨guided.withTop same placed, ?_, nofun⟩
        rintro _ _ ⟨⟩
        refine ⟨nofun, nofun, fun other isOther _ => ?_, nofun⟩
        rw [same, isNode] at isOther
        exact Node.statement.inj isOther ▸ leaves
  | @complete completion aims ends =>
      obtain moved | counted := goesOn
      · cases moved
        refine ⟨guided.tail, ?_, ?_⟩
        · rintro parent rest rfl
          cases guided with
          | more placed waits _ =>
              refine ⟨?_, ?_, ?_, ?_⟩
              · rintro _ ⟨⟩
                exact aims
              · rintro id isFunction _ ⟨⟩
                obtain ⟨isEntered, part, isPart⟩ := waits.body id isFunction
                exact ⟨isEntered, ends part isPart⟩
              · intro id isNode smooth
                cases isFrame : frame.node with
                | statement part =>
                    obtain ⟨isEnd, normal⟩ := ends part isFrame
                    rw [← Tree.mayEnd_cons isNode]
                    exact normal (Completion.eq_normal isEnd (smooth completion rfl))
                | _ => exact waits.leaves id isNode fun part => by simp [isFrame]
              · exact fun id isNode _ _ _ => waits.recovers id isNode
        · rintro rfl _ ⟨⟩
          exact aims.jump?_eq_none
      · cases counted

/-- A turn keeps the frames of a machine waiting for what they run. -/
theorem Flowing.advance
    (structured : setting.tree.Structured)
    (fits : setting.tree.stmts.size < UInt32.size)
    (aligned : machine.Aligned setting)
    (flowing : machine.Flowing setting)
    (goesOn : machine.advance setting = .moved next ∨ machine.advance setting = .counted next) :
    next.Flowing setting := by
  obtain ⟨memory, frames, incoming, outcome, steps⟩ := machine
  cases frames with
  | nil =>
      obtain moved | counted := goesOn
      · cases moved
      · cases counted
  | cons frame below =>
      rw [advance_cons] at goesOn
      have takes := aligned.takes frame below rfl
      obtain ⟨fault, after, broken⟩ | ⟨move, after, played, obeyed⟩ :=
        Frame.play_obeys (readyMemory setting _ frame) takes
      · rw [broken] at goesOn
        obtain moved | counted := goesOn
        · cases moved
        · cases counted
      · rw [played] at goesOn
        exact flowing.afterMove (.ofPlay structured fits flowing.guided.placed
          (flowing.handed frame below rfl) played obeyed) goesOn

/-- Whatever happens between turns keeps the frames of a machine waiting for what they run. -/
theorem Flowing.goes
    (structured : setting.tree.Structured)
    (fits : setting.tree.stmts.size < UInt32.size)
    (aligned : machine.Aligned setting)
    (flowing : machine.Flowing setting)
    (goes : Goes setting machine next) :
    next.Flowing setting := by
  cases goes with
  | moved moved => exact flowing.advance structured fits aligned (.inl moved)
  | counted counted => exact flowing.advance structured fits aligned (.inr counted)
  | withHost host => exact ⟨flowing.guided, flowing.handed, flowing.rooted⟩
  | closeUnused => exact ⟨flowing.guided, flowing.handed, flowing.rooted⟩

/-- The frames of a machine that has been reached wait for what they run. -/
theorem Reached.flowing
    (structured : setting.tree.Structured)
    (fits : setting.tree.stmts.size < UInt32.size)
    (reached : machine.Reached setting) :
    machine.Flowing setting := by
  obtain ⟨entry, host, goes⟩ := reached
  induction goes with
  | refl => exact flowing_start entry host
  | tail earlier goes inductionHypothesis =>
      exact inductionHypothesis.goes structured fits ((aligned_start entry host).star earlier) goes

end Machine

end BotScript
