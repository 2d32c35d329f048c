import BotScript.Proofs.OutlineFrames
import BotScript.Proofs.SpelledProgram
import BotScript.Proofs.Turn

namespace BotScript

open Spelled (word mark name)

/-!
# Frames and their activations

The activations of a running machine belong to the frames that own one, in
order from the root.  A frame is pushed together with its activation, and the
activation goes when the frame is done, however it is done.  So every other
frame reads its variables from the activation of the nearest owner below it.
-/

/--
The frames of a chain, the innermost first, over the outlines of its
activations, the outermost first.
-/
inductive Stacked (tree : Tree) : List Outline → List Frame → Prop where
  | empty : Stacked tree [] []
  | root
      {frame : Frame}
      {entry : FuncId}
      {outline : Outline} :
      frame.node = .start entry →
      frame.act = 0 →
      Stacked tree [outline] [frame]
  | part
      {outlines : List Outline}
      {frame parent : Frame}
      {below : List Frame} :
      frame.node.ownsActivation = false →
      parent.node.Carries frame.node →
      frame.act = parent.act →
      Stacked tree outlines (parent :: below) →
      Stacked tree outlines (frame :: parent :: below)
  | owner
      {outlines : List Outline}
      {outline : Outline}
      {frame parent : Frame}
      {below : List Frame} :
      frame.node.ownsActivation = true →
      parent.node.Carries frame.node →
      frame.node.Heads tree outline →
      frame.act.toNat = outlines.length →
      Stacked tree outlines (parent :: below) →
      Stacked tree (outlines ++ [outline]) (frame :: parent :: below)

/-- Frames that own an activation are no statements. -/
theorem Node.carries_of_ownsActivation
    {parent child : Node}
    (owns : child.ownsActivation = true) :
    parent.Carries child := by
  rintro id rfl
  cases owns

namespace Stacked

variable {tree : Tree} {outlines : List Outline} {frame other : Frame}
  {above below frames : List Frame}

/-- The innermost frame can go on to another step. -/
theorem withTop
    (stacked : Stacked tree outlines (frame :: below))
    (stays : other.Stays frame) :
    Stacked tree outlines (other :: below) := by
  obtain ⟨node, act⟩ := stays
  cases stacked with
  | root isRoot isFirst => exact .root (node.trans isRoot) (act.trans isFirst)
  | part shares carries same rest => exact .part (node ▸ shares) (node ▸ carries) (act.trans same) rest
  | owner owns carries heads isTop rest =>
      exact .owner (node ▸ owns) (node ▸ carries) (node ▸ heads) (act ▸ isTop) rest

/-- The frames below the innermost one, over the activations that it leaves. -/
theorem tail
    (stacked : Stacked tree outlines (frame :: below)) :
    Stacked tree
      (if frame.node.ownsActivation then outlines.take frame.act.toNat else outlines) below := by
  cases stacked with
  | root isRoot isFirst =>
      rw [isRoot, isFirst]
      exact .empty
  | part shares _ _ rest => simpa [shares] using rest
  | owner owns _ _ isTop rest => simpa [owns, isTop] using rest

/-- The frames below some frames, over the activations that these leave. -/
theorem suffix
    (stacked : Stacked tree outlines (above ++ below)) :
    ∃ left, Stacked tree left below := by
  induction above generalizing outlines with
  | nil => exact ⟨outlines, stacked⟩
  | cons frame above inductionHypothesis => exact inductionHypothesis stacked.tail

/-- What the innermost frame delivers can be handed to the frame below it. -/
theorem takes
    {parent : Frame}
    {completion : Completion}
    (stacked : Stacked tree outlines (frame :: parent :: below))
    (delivers : frame.node.Delivers completion) :
    parent.node.Takes completion := by
  cases stacked with
  | part _ carries => exact delivers.takes carries
  | owner _ carries => exact delivers.takes carries

/-- The outermost frame is the root. -/
theorem isRoot
    (stacked : Stacked tree outlines frames)
    (last : frames.getLast? = some frame) :
    (∃ entry, frame.node = .start entry) ∧ frame.act = 0 := by
  induction stacked with
  | empty => cases last
  | root isRoot isFirst =>
      cases last
      exact ⟨⟨_, isRoot⟩, isFirst⟩
  | part _ _ _ _ inductionHypothesis => exact inductionHypothesis (by simpa using last)
  | owner _ _ _ _ _ inductionHypothesis => exact inductionHypothesis (by simpa using last)

/-- The frames that own an activation, from the root, own the activations in order. -/
theorem owners
    (stacked : Stacked tree outlines frames) :
    ((frames.reverse.filter (·.node.ownsActivation)).map fun frame => frame.act.toNat) =
      List.range outlines.length := by
  induction stacked with
  | empty => rfl
  | root isRoot isFirst => simp [isRoot, isFirst, Node.ownsActivation]
  | part shares _ _ _ inductionHypothesis =>
      rw [List.reverse_cons, List.filter_append, List.map_append, inductionHypothesis]
      simp [shares]
  | owner owns _ _ isTop _ inductionHypothesis =>
      rw [List.reverse_cons, List.filter_append, List.map_append, inductionHypothesis]
      simp [owns, isTop, List.range_succ]

/-- A frame that owns no activation shares that of the nearest owner below it. -/
theorem shares
    (stacked : Stacked tree outlines (frame :: below))
    (isPart : frame.node.ownsActivation = false) :
    ∃ owner, below.find? (·.node.ownsActivation) = some owner ∧ frame.act = owner.act := by
  induction below generalizing frame with
  | nil =>
      cases stacked with
      | root isRoot => simp [isRoot, Node.ownsActivation] at isPart
  | cons parent below inductionHypothesis =>
      cases stacked with
      | owner owns => simp [owns] at isPart
      | part _ _ same rest =>
          cases owns : parent.node.ownsActivation with
          | true => exact ⟨parent, by simp [owns], same⟩
          | false =>
              obtain ⟨owner, nearest, sameOwner⟩ := inductionHypothesis rest owns
              exact ⟨owner, by simpa [owns] using nearest, same.trans sameOwner⟩

/-- Every frame reads its variables from an activation that exists. -/
theorem act_lt
    (stacked : Stacked tree outlines frames)
    (member : frame ∈ frames) :
    frame.act.toNat < outlines.length := by
  induction stacked generalizing frame with
  | empty => cases member
  | root _ isFirst =>
      obtain rfl := List.mem_singleton.mp member
      simp [isFirst]
  | part _ _ same _ inductionHypothesis =>
      rcases List.mem_cons.mp member with rfl | member
      · exact same ▸ inductionHypothesis (List.mem_cons_self ..)
      · exact inductionHypothesis member
  | owner _ _ _ isTop _ inductionHypothesis =>
      rw [List.length_append]
      rcases List.mem_cons.mp member with rfl | member
      · simp [isTop]
      · exact Nat.lt_add_right _ (inductionHypothesis member)

/-- The activation of a frame that runs a function is one of that function. -/
theorem heads
    {id : FuncId}
    (stacked : Stacked tree outlines frames)
    (member : frame ∈ frames)
    (isNode : frame.node = .function id) :
    ∃ outline, outlines[frame.act.toNat]? = some outline ∧ (Node.function id).Heads tree outline := by
  induction stacked with
  | empty => cases member
  | root isRoot =>
      obtain rfl := List.mem_singleton.mp member
      exact absurd (isRoot.symm.trans isNode) (by simp)
  | part isPart _ _ _ inductionHypothesis =>
      rcases List.mem_cons.mp member with rfl | member
      · simp [isNode, Node.ownsActivation] at isPart
      · exact inductionHypothesis member
  | @owner outlines outline _ _ _ _ _ own isTop _ inductionHypothesis =>
      rcases List.mem_cons.mp member with rfl | member
      · exact ⟨outline, by simp [isTop], isNode ▸ own⟩
      · obtain ⟨found, isThere, own⟩ := inductionHypothesis member
        exact ⟨found, List.getElem?_append_left (List.getElem?_eq_some_iff.mp isThere).1 ▸ isThere, own⟩

end Stacked

/-! ## Turns -/

/-- The memory that a frame leaves behind. -/
theorem Machine.outlines_memoryAfter
    (frame : Frame)
    (memory : Memory) :
    (Machine.memoryAfter frame memory).outlines =
      if frame.node.ownsActivation then memory.outlines.take frame.act.toNat
      else memory.outlines := by
  obtain ⟨world, activations, statics⟩ := memory
  unfold Machine.memoryAfter
  dsimp only
  split
  · simp [Memory.outlines, List.map_take]
  · rfl

/-- The move of a frame after its step, errors and jumps included. -/
theorem Frame.play_obeys
    {setting : Setting}
    {frame : Frame}
    {incoming : Option Completion}
    (memory : Memory)
    (takes : ∀ completion, incoming = some completion → frame.node.Takes completion) :
    (∃ fault after, frame.play setting incoming memory = (.error fault, after)) ∨
      ∃ move after,
        frame.play setting incoming memory = (.ok move, after) ∧
          Step.Obeyed setting frame memory.outlines (.ok move, after) := by
  have obeyed := Step.Obeys.ofFrame setting frame memory.outlines takes memory rfl
  unfold Frame.play
  revert obeyed
  generalize (Step.ofFrame setting frame incoming).run.run memory = taken
  intro obeyed
  obtain ⟨result, after⟩ := taken
  cases result with
  | ok move => exact .inr ⟨move, after, rfl, obeyed⟩
  | error interrupt =>
      cases obeyed with
      | propagate outlines delivers => exact .inr ⟨_, after, rfl, .complete delivers outlines⟩
      | @fault fault _ outlines =>
          cases fault with
          | error code => exact .inr ⟨_, after, rfl, .complete (Node.delivers_thrown _ _) outlines⟩
          | _ => exact .inl ⟨_, after, rfl⟩

namespace Machine

variable {setting : Setting} {machine next : Machine}

/--
What happens to a machine between two of its turns, or within one call of `run`
and the next.  The host changes as it likes.
-/
inductive Goes (setting : Setting) : Machine → Machine → Prop where
  | moved
      {machine next : Machine} :
      machine.advance setting = .moved next →
      Goes setting machine next
  | counted
      {machine next : Machine} :
      machine.advance setting = .counted next →
      Goes setting machine next
  | withHost
      {machine : Machine}
      (host : Host) :
      Goes setting machine (machine.withHost host)
  | closeUnused
      {machine : Machine} :
      Goes setting machine machine.closeUnused

/-- A machine that has been started, after turns that have not ended its program. -/
def Reached (setting : Setting) (machine : Machine) : Prop :=
  ∃ entry host, Relation.ReflTransGen (Goes setting) (start setting entry host) machine

/-- A machine whose frames are stacked over its activations. -/
structure Aligned (setting : Setting) (machine : Machine) : Prop where
  stacked : Stacked setting.tree machine.memory.outlines machine.frames
  depth : machine.memory.outlines.length ≤ max 1 setting.callDepth.toNat
  takes :
    ∀ frame below, machine.frames = frame :: below →
      ∀ completion, machine.incoming = some completion → frame.node.Takes completion

/-- A machine is aligned at its start. -/
theorem aligned_start
    (entry : FuncId)
    (host : Host) :
    (start setting entry host).Aligned setting where
  stacked := .root rfl rfl
  depth := Nat.le_max_left ..
  takes _ _ _ _ handed := by cases handed

/-- The move of the innermost frame keeps a machine aligned. -/
theorem Aligned.afterMove
    {memory after : Memory}
    {frame : Frame}
    {below : List Frame}
    {incoming : Option Completion}
    {outcome : Outcome}
    {steps : UInt64}
    {move : Move}
    (aligned : Aligned setting ⟨memory, frame :: below, incoming, outcome, steps⟩)
    (obeyed : Step.Obeyed setting frame memory.outlines (.ok move, after))
    (goesOn :
      afterMove frame below outcome steps (.ok move, after) = .moved next ∨
        afterMove frame below outcome steps (.ok move, after) = .counted next) :
    next.Aligned setting := by
  obtain ⟨stacked, depth, -⟩ := aligned
  dsimp only at stacked depth
  cases obeyed with
  | pushPart stays shares carries outlines =>
      obtain moved | counted := goesOn
      · cases moved
        refine ⟨?_, outlines ▸ depth, fun _ _ _ _ handed => by cases handed⟩
        rw [outlines]
        exact .part shares (stays.1 ▸ carries) stays.2.symm (stacked.withTop stays)
      · cases counted
  | pushOwner stays owns heads free isTop outlines =>
      obtain moved | counted := goesOn
      · cases moved
        refine ⟨?_, ?_, fun _ _ _ _ handed => by cases handed⟩
        · rw [outlines]
          exact .owner owns (Node.carries_of_ownsActivation owns) heads isTop
            (stacked.withTop stays)
        · rw [outlines, List.length_append, List.length_singleton]
          omega
      · cases counted
  | tick stays _ outlines =>
      obtain moved | counted := goesOn
      · cases moved
      · cases counted
        exact ⟨outlines ▸ stacked.withTop stays, outlines ▸ depth,
          fun _ _ _ _ handed => by cases handed⟩
  | complete delivers outlines =>
      obtain moved | counted := goesOn
      · cases moved
        refine ⟨?_, ?_, ?_⟩
        · rw [outlines_memoryAfter, outlines]
          exact stacked.tail
        · rw [outlines_memoryAfter, outlines]
          split
          · exact Nat.le_trans (List.length_take_le' ..) depth
          · exact depth
        · rintro parent rest rfl completion ⟨⟩
          exact stacked.takes delivers
      · cases counted

/-- A turn keeps a machine aligned. -/
theorem Aligned.advance
    (aligned : machine.Aligned setting)
    (goesOn : machine.advance setting = .moved next ∨ machine.advance setting = .counted next) :
    next.Aligned setting := by
  obtain ⟨memory, frames, incoming, outcome, steps⟩ := machine
  cases frames with
  | nil =>
      obtain moved | counted := goesOn
      · cases moved
      · cases counted
  | cons frame below =>
      rw [advance_cons] at goesOn
      have ready :
          (readyMemory setting ⟨memory, frame :: below, incoming, outcome, steps⟩ frame).outlines =
            memory.outlines := by
        unfold readyMemory
        split <;> rfl
      have takes := aligned.takes frame below rfl
      obtain ⟨fault, after, broken⟩ | ⟨move, after, played, obeyed⟩ :=
        Frame.play_obeys (readyMemory setting _ frame) takes
      · rw [broken] at goesOn
        obtain moved | counted := goesOn
        · cases moved
        · cases counted
      · rw [played] at goesOn
        rw [ready] at obeyed
        exact aligned.afterMove obeyed goesOn

/-- Whatever happens between turns keeps a machine aligned. -/
theorem Aligned.goes
    (aligned : machine.Aligned setting)
    (goes : Goes setting machine next) :
    next.Aligned setting := by
  cases goes with
  | moved moved => exact aligned.advance (.inl moved)
  | counted counted => exact aligned.advance (.inr counted)
  | withHost host => exact ⟨aligned.stacked, aligned.depth, aligned.takes⟩
  | closeUnused => exact ⟨aligned.stacked, aligned.depth, aligned.takes⟩

/-- What becomes of the innermost frame of an aligned machine; those below it stay. -/
theorem Aligned.goes_cons
    {frame : Frame}
    {below : List Frame}
    (aligned : machine.Aligned setting)
    (frames : machine.frames = frame :: below)
    (goes : Goes setting machine next) :
    (next.frames = machine.frames ∧ next.incoming = machine.incoming) ∨
      (∃ stay child, stay.Stays frame ∧ next.frames = child :: stay :: below) ∨
      (∃ stay, stay.Stays frame ∧ next.frames = stay :: below) ∨
      ∃ completion,
        frame.node.Delivers completion ∧
          next.frames = below ∧ next.incoming = some completion := by
  have turned
      (turn : machine.advance setting = .moved next ∨ machine.advance setting = .counted next) :
      (∃ stay child, stay.Stays frame ∧ next.frames = child :: stay :: below) ∨
        (∃ stay, stay.Stays frame ∧ next.frames = stay :: below) ∨
        ∃ completion,
          frame.node.Delivers completion ∧
            next.frames = below ∧ next.incoming = some completion := by
    obtain ⟨memory, _, incoming, outcome, steps⟩ := machine
    cases frames
    rw [advance_cons] at turn
    have takes := aligned.takes frame below rfl
    obtain ⟨fault, after, broken⟩ | ⟨move, after, played, obeyed⟩ :=
      Frame.play_obeys (readyMemory setting _ frame) takes
    · rw [broken] at turn
      obtain moved | counted := turn
      · cases moved
      · cases counted
    · rw [played] at turn
      cases obeyed with
      | pushPart stays =>
          obtain moved | counted := turn
          · cases moved
            exact .inl ⟨_, _, stays, rfl⟩
          · cases counted
      | pushOwner stays =>
          obtain moved | counted := turn
          · cases moved
            exact .inl ⟨_, _, stays, rfl⟩
          · cases counted
      | tick stays =>
          obtain moved | counted := turn
          · cases moved
          · cases counted
            exact .inr (.inl ⟨_, stays, rfl⟩)
      | complete delivers =>
          obtain moved | counted := turn
          · cases moved
            exact .inr (.inr ⟨_, delivers, rfl, rfl⟩)
          · cases counted
  cases goes with
  | moved moved => exact .inr (turned (.inl moved))
  | counted counted => exact .inr (turned (.inr counted))
  | withHost host => exact .inl ⟨rfl, rfl⟩
  | closeUnused => exact .inl ⟨rfl, rfl⟩

/-- Where a machine goes whose next turn is known. -/
theorem Goes.of_turn
    {known : Machine}
    (turn : machine.advance setting = .moved known ∨ machine.advance setting = .counted known)
    (goes : Goes setting machine next) :
    (next.frames = machine.frames ∧ next.incoming = machine.incoming) ∨ next = known := by
  cases goes with
  | moved moved => exact .inr (by simpa [moved] using turn)
  | counted counted => exact .inr (by simpa [counted] using turn)
  | withHost => exact .inl ⟨rfl, rfl⟩
  | closeUnused => exact .inl ⟨rfl, rfl⟩

/-- However far a machine goes, it stays aligned. -/
theorem Aligned.star
    (aligned : machine.Aligned setting)
    (goes : Relation.ReflTransGen (Goes setting) machine next) :
    next.Aligned setting := by
  induction goes with
  | refl => exact aligned
  | tail _ goes inductionHypothesis => exact inductionHypothesis.goes goes

/-- A machine that has been reached is aligned. -/
theorem Reached.aligned
    (reached : machine.Reached setting) :
    machine.Aligned setting := by
  obtain ⟨entry, host, goes⟩ := reached
  exact (aligned_start entry host).star goes

/-! ## Slices -/

/-- A counted step leaves a statement on top, and nothing that it would have to look at. -/
theorem Aligned.counted
    (aligned : machine.Aligned setting)
    (counted : machine.advance setting = .counted next) :
    next.incoming = none ∧
      ∃ frame below id, next.frames = frame :: below ∧ frame.node = .statement id := by
  obtain ⟨memory, frames, incoming, outcome, steps⟩ := machine
  cases frames with
  | nil => cases counted
  | cons frame below =>
      rw [advance_cons] at counted
      have takes := aligned.takes frame below rfl
      obtain ⟨fault, after, broken⟩ | ⟨move, after, played, obeyed⟩ :=
        Frame.play_obeys (readyMemory setting _ frame) takes
      · rw [broken] at counted
        cases counted
      · rw [played] at counted
        cases obeyed with
        | pushPart => cases counted
        | pushOwner => cases counted
        | complete => cases counted
        | @tick stay _ stays isStatement =>
            cases counted
            obtain ⟨id, isNode⟩ := isStatement
            exact ⟨rfl, stay, below, id, rfl, stays.1.trans isNode⟩

/-- A slice leads to where turns lead to, and one that pauses ends with a counted step. -/
theorem goes_runFor
    (fuel : Nat)
    (budget : Option Nat) :
    ((machine.runFor setting fuel budget).1 = .outOfFuel →
        Relation.ReflTransGen (Goes setting) machine (machine.runFor setting fuel budget).2) ∧
      ((machine.runFor setting fuel budget).1 = .paused →
        ∃ last, Relation.ReflTransGen (Goes setting) machine last ∧
          last.advance setting = .counted (machine.runFor setting fuel budget).2) := by
  induction fuel generalizing machine budget with
  | zero => exact ⟨fun _ => .refl, by simp [Machine.runFor]⟩
  | succ fuel inductionHypothesis =>
      unfold Machine.runFor
      cases turn : machine.advance setting with
      | moved next =>
          obtain ⟨unfinished, paused⟩ := @inductionHypothesis next budget
          refine ⟨fun status => .head (.moved turn) (unfinished status), fun status => ?_⟩
          obtain ⟨last, goes, counted⟩ := paused status
          exact ⟨last, .head (.moved turn) goes, counted⟩
      | ended last =>
          dsimp only
          cases ended : last.outcome <;> simp [endStatus, ended]
      | counted next =>
          have later (left : Option Nat) :
              ((next.runFor setting fuel left).1 = .outOfFuel →
                  Relation.ReflTransGen (Goes setting) machine
                    (next.runFor setting fuel left).2) ∧
                ((next.runFor setting fuel left).1 = .paused →
                  ∃ last, Relation.ReflTransGen (Goes setting) machine last ∧
                    last.advance setting = .counted (next.runFor setting fuel left).2) := by
            obtain ⟨unfinished, paused⟩ := @inductionHypothesis next left
            refine ⟨fun status => .head (.counted turn) (unfinished status), fun status => ?_⟩
            obtain ⟨last, goes, counted⟩ := paused status
            exact ⟨last, .head (.counted turn) goes, counted⟩
          dsimp only
          split
          · simp
          · obtain _ | _ | _ | left := budget
            · exact later none
            · exact ⟨by simp, fun _ => ⟨machine, .refl, turn⟩⟩
            · exact ⟨by simp, fun _ => ⟨machine, .refl, turn⟩⟩
            · exact later (some (left + 1))

/-! ## Discipline -/

/-- The frames of a machine that own an activation, from the root. -/
def owners (machine : Machine) : List Frame :=
  machine.frames.reverse.filter (·.node.ownsActivation)

/-- How the frames of a machine and its activations belong together. -/
structure Disciplined (setting : Setting) (machine : Machine) : Prop where
  /-- The outermost frame is the root. -/
  root :
    ∀ frame, machine.frames.getLast? = some frame →
      (∃ entry, frame.node = .start entry) ∧ frame.act = 0
  /-- Each activation has one owner, in order from the root. -/
  owned :
    (machine.owners.map fun frame => frame.act.toNat) =
      List.range machine.memory.activations.size
  /-- Every other frame reads its variables where the nearest owner below it does. -/
  shared :
    ∀ above frame below, machine.frames = above ++ frame :: below →
      frame.node.ownsActivation = false →
      ∃ owner, below.find? (·.node.ownsActivation) = some owner ∧ frame.act = owner.act
  /-- The activation of a function is one of that function, with all of its variables. -/
  functions :
    ∀ frame ∈ machine.frames, ∀ id, frame.node = .function id →
      ∃ function activation,
        setting.tree.function? id = some function ∧
          machine.memory.activations[frame.act.toNat]? = some activation ∧
          activation.function = some id ∧
          activation.locals.size = function.locals.length
  /-- There are no more activations than calls may be nested. -/
  depth : machine.memory.activations.size ≤ max 1 setting.callDepth.toNat
  /-- A frame finds its activation, as long as none is given up. -/
  lookups :
    ∀ frame ∈ machine.frames, ∀ memory : Memory,
      machine.memory.activations.size ≤ memory.activations.size →
      ∃ activation, (Step.activationOf frame).run.run memory = (.ok activation, memory)

/-- The frames of an aligned machine and its activations belong together. -/
theorem Aligned.disciplined
    (aligned : machine.Aligned setting) :
    machine.Disciplined setting where
  root frame last := aligned.stacked.isRoot last
  owned := by
    rw [← Memory.length_outlines]
    exact aligned.stacked.owners
  shared above frame below parted isPart := by
    have stacked := aligned.stacked
    rw [parted] at stacked
    obtain ⟨left, stacked⟩ := stacked.suffix
    exact stacked.shares isPart
  functions frame member id isNode := by
    obtain ⟨outline, found, named, function, known, slots⟩ := aligned.stacked.heads member isNode
    rw [Memory.outlines, List.getElem?_map, Option.map_eq_some_iff] at found
    obtain ⟨activation, isThere, rfl⟩ := found
    exact ⟨function, activation, known, by simpa using isThere, named, slots⟩
  depth := by
    rw [← Memory.length_outlines]
    exact aligned.depth
  lookups frame member memory more := by
    have inside := aligned.stacked.act_lt member
    rw [Memory.length_outlines] at inside
    have found := Array.getElem?_eq_getElem (Nat.lt_of_lt_of_le inside more)
    refine ⟨memory.activations[frame.act.toNat], ?_⟩
    change (Step.require .notRunning memory.activations[frame.act.toNat]?).run.run memory = _
    rw [found]
    rfl

/--
The frames and the activations of every machine that has been reached belong
together.  When it pauses within a budget, its innermost frame is a statement,
and no completion is left to be looked at.
-/
theorem reached_disciplined
    (reached : machine.Reached setting) :
    machine.Disciplined setting ∧
      ∀ fuel budget,
        budget ≠ some 0 →
        (machine.run setting fuel budget).1 = .paused →
        (machine.run setting fuel budget).2.incoming = none ∧
          ∃ frame below id,
            (machine.run setting fuel budget).2.frames = frame :: below ∧
              frame.node = .statement id := by
  refine ⟨reached.aligned.disciplined, fun fuel budget positive paused => ?_⟩
  have run : machine.run setting fuel budget = machine.runFor setting fuel budget := by
    unfold Machine.run at paused ⊢
    split at paused
    · split at paused
      · cases paused
      · next unstopped =>
          rw [if_neg unstopped, if_neg (by simpa using positive)]
    · cases ended : machine.outcome <;> simp [endStatus, ended] at paused
  rw [run] at paused ⊢
  obtain ⟨last, goes, counted⟩ := (goes_runFor fuel budget).2 paused
  exact (reached.aligned.star goes).counted counted

/--
An instance whose field is set up by a call.  While the call runs, the root, the
entry function, the field values and the called function own an activation each.
-/
def nestedTokens : TokenList :=
  Spelled.program
    [ -- class Box { int size = count(); }
      mark .classKw, name "Box", mark .openBlock, mark .intKw, name "size", mark .assign,
      name "count", mark .openPar, mark .closePar, mark .semicolon, mark .closeBlock,
      -- int count() { return 1; }
      mark .intKw, name "count", mark .openPar, mark .closePar, mark .openBlock,
      mark .returnKw, word .number "1", mark .semicolon, mark .closeBlock,
      -- int main() { Box b = new Box(); return b.size; }
      mark .intKw, name "main", mark .openPar, mark .closePar, mark .openBlock,
      name "Box", name "b", mark .assign, mark .newKw, name "Box", mark .openPar, mark .closePar,
      mark .semicolon,
      mark .returnKw, name "b", mark .dot, name "size", mark .semicolon, mark .closeBlock]

/-- The instance is set up: four owners, ten frames, and one more counted step. -/
theorem reached_disciplined_nested :
    let setting := Spelled.setting nestedTokens
    let machine := ((Spelled.started nestedTokens ⟨1⟩).runFor setting 12 none).2
    (compile .standard nestedTokens).isOk = true ∧
      machine.frames.length = 10 ∧
      machine.owners.map (·.node) =
        [.start ⟨1⟩, .function ⟨1⟩, .fieldSetup ⟨0⟩, .function ⟨0⟩] ∧
      machine.Reached setting ∧
      machine.Disciplined setting ∧
      (machine.run setting 10 (some 1)).1 = .paused ∧
      (machine.run setting 10 (some 1)).2.incoming = none ∧
      ∃ frame below id,
        (machine.run setting 10 (some 1)).2.frames = frame :: below ∧
          frame.node = .statement id := by
  intro setting machine
  have reached : machine.Reached setting :=
    ⟨_, _, (goes_runFor 12 none).1 (by decide +kernel)⟩
  have paused : (machine.run setting 10 (some 1)).1 = .paused := by decide +kernel
  obtain ⟨disciplined, rests⟩ := reached_disciplined reached
  exact ⟨by decide +kernel, by decide +kernel, by decide +kernel, reached, disciplined, paused,
    rests 10 (some 1) (by simp) paused⟩

end Machine

end BotScript
