import BotScript.Proofs.BuildingPrograms
import BotScript.Proofs.Slicing
import BotScript.Proofs.WaitingFrames
import BotScript.Proofs.WellFormedTrees
import Mathlib.Data.Multiset.DershowitzManna
import Mathlib.Data.Prod.Lex

namespace BotScript

/-!
# Slices that end

Between two counted steps only finitely many frames are pushed.  Every frame has a
weight: how many activations there is room for above it, then how far its node is behind
the first expression, then how much of its way is left.  A frame that pushes another one
gives its weight up for two smaller ones, so the weights of all frames decrease as a
multiset until a statement is entered or the chain is done.
-/

/-! ## Trees whose lists are short -/

/-- The lists of a tree that is built from the tokens of a text are short. -/
theorem Tree.Built.countable
    {tree : Tree}
    {context : CompileContext}
    {known : NativeId → Prop}
    (built : tree.Built context known)
    (ended : context.Ended)
    (short : context.tokens.size ≤ UInt32.size)
    (fits : tree.Fits)
    (fields : tree.FieldsFit) :
    tree.Countable := by
  obtain ⟨own, sound⟩ := built.sound
  have counted {length : Nat} (isShort : Tree.Short context length) : length < UInt32.size := by
    have listed := isShort ended
    have room : 0 < UInt32.size := by decide
    omega
  refine
    { arguments := fun index node found => counted (sound.exprs index node found).short
      widths := fun index node found => counted (sound.stmts index node found).short
      classes := fits.classes
      statics := fields.statics
      fields := fun id entry found => ?_ }
  rw [← Id.ofIndex_index id]
  exact fields.instances id.index (Array.getElem?_eq_some_iff.mp found).1

/-! ## Weights -/

/-- The place of an expression among all of them; the other nodes are behind the last one. -/
def Node.height : Node → Nat
  | .expression id _ => id.index
  | _ => UInt32.size

/-- No expression is behind the last one. -/
theorem Node.height_expression_lt (id : ExprId) (demand : Demand) :
    (Node.expression id demand).height < UInt32.size :=
  id.raw.toNat_lt

namespace Frame

/-- Whether a frame is about to set up the fields of an instance. -/
def isAtSetup (frame : Frame) : Bool :=
  match frame.node with
  | .fieldSetup _ => frame.state != 1
  | _ => false

/-- How much a frame has left of the way through its node. -/
def left (frame : Frame) : Nat :=
  let places := UInt32.size * UInt32.size * UInt32.size
  if frame.isAtSetup then places + 1 else places - frame.rank

/-- A frame that can wait is not about to set up fields. -/
theorem CanWait.not_isAtSetup
    {tree : Tree}
    {frame : Frame}
    (canWait : frame.CanWait tree) :
    frame.isAtSetup = false := by
  unfold isAtSetup
  split
  · next owner isSetup => simp [canWait.setUp owner isSetup]
  · rfl

/-- A frame that stays below another one has less left than before. -/
theorem left_lt
    {tree : Tree}
    {origin stay : Frame}
    (canWait : stay.CanWait tree)
    (isLater : origin.isAtSetup = false → origin.rank < stay.rank) :
    stay.left < origin.left := by
  have room := origin.rank_lt
  unfold left
  generalize UInt32.size * UInt32.size * UInt32.size = places at room ⊢
  rw [canWait.not_isAtSetup]
  cases atSetup : origin.isAtSetup with
  | true =>
      simp only [Bool.false_eq_true, ↓reduceIte]
      omega
  | false =>
      have ahead := isLater atSetup
      simp only [Bool.false_eq_true, ↓reduceIte]
      omega

/-- The weight of a frame below which there is room for some activations. -/
def weight (room : Nat) (frame : Frame) : Nat ×ₗ Nat ×ₗ Nat :=
  toLex (room, toLex (frame.node.height, frame.left))

section Weight

variable {room less : Nat} {frame other : Frame}

/-- With less room a frame weighs less. -/
theorem weight_lt_of_room
    (isLess : less < room) :
    other.weight less < frame.weight room :=
  Prod.Lex.toLex_lt_toLex.mpr (.inl isLess)

/-- A frame of an earlier node weighs less. -/
theorem weight_lt_of_height
    (isLower : other.node.height < frame.node.height) :
    other.weight room < frame.weight room :=
  Prod.Lex.toLex_lt_toLex.mpr (.inr ⟨rfl, Prod.Lex.toLex_lt_toLex.mpr (.inl isLower)⟩)

/-- A frame that has less left of the way through a node weighs less. -/
theorem weight_lt_of_left
    (sameNode : other.node = frame.node)
    (isLess : other.left < frame.left) :
    other.weight room < frame.weight room :=
  Prod.Lex.toLex_lt_toLex.mpr
    (.inr ⟨rfl, Prod.Lex.toLex_lt_toLex.mpr (.inr ⟨congrArg Node.height sameNode, isLess⟩)⟩)

end Weight

/-- The number of frames that own an activation. -/
def owners (frames : List Frame) : Nat :=
  frames.countP (·.node.ownsActivation)

/-- The weights of frames over which there is room up to a depth. -/
def weights (depth : Nat) : List Frame → Multiset (Nat ×ₗ Nat ×ₗ Nat)
  | [] => 0
  | frame :: below => frame.weight (depth - owners (frame :: below)) ::ₘ weights depth below

end Frame

/-- There are as many activations as frames that own one. -/
theorem Stacked.length_outlines
    {tree : Tree}
    {outlines : List Outline}
    {frames : List Frame}
    (stacked : Stacked tree outlines frames) :
    Frame.owners frames = outlines.length := by
  have owners := congrArg List.length stacked.owners
  rwa [List.length_map, List.length_range, ← List.countP_eq_length_filter,
    List.countP_reverse] at owners

namespace Move.Descends

variable {tree : Tree} {origin stay child : Frame}

/-- A frame that pushes anything but a statement has less left than before. -/
theorem left_lt
    (descends : Move.Descends tree origin (.push stay child))
    (countable : tree.Countable)
    (notEntry : ¬ child.AtEntry) :
    stay.left < origin.left := by
  refine Frame.left_lt descends.canWait.1 fun notSetup => ?_
  cases descends with
  | runs => exact absurd ⟨_, rfl, rfl⟩ notEntry
  | calls _ isLater => exact isLater countable
  | setsUp _ isLater => exact isLater countable
  | evaluates _ isLater => exact isLater countable
  | setsOut isNode _ notBegun =>
      unfold Frame.isAtSetup at notSetup
      rw [isNode] at notSetup
      simp [notBegun] at notSetup

/-- A frame that is no statement weighs less than the one that pushes it. -/
theorem weight_lt
    {room less : Nat}
    (descends : Move.Descends tree origin (.push stay child))
    (sorted : ∀ id node, tree.expr? id = some node →
      ∀ part ∈ node.kind.children, part.index < id.index)
    (notEntry : ¬ child.AtEntry)
    (owner : child.node.ownsActivation = true → less < room)
    (part : child.node.ownsActivation = false → less = room) :
    child.weight less < origin.weight room := by
  cases descends with
  | runs => exact absurd ⟨_, rfl, rfl⟩ notEntry
  | calls => exact Frame.weight_lt_of_room (owner rfl)
  | setsUp => exact Frame.weight_lt_of_room (owner rfl)
  | @evaluates _ id demand _ _ _ bears =>
      rw [part rfl]
      refine Frame.weight_lt_of_height ?_
      cases isNode : origin.node with
      | expression parent demand' =>
          have pushes := bears.pushes
          rw [isNode] at pushes
          obtain ⟨node, found, isChild⟩ := Tree.mem_children_of_canPush pushes
          exact sorted parent node found id isChild
      | _ => exact Node.height_expression_lt id demand
  | @setsOut _ _ id demand _ isNode =>
      rw [part rfl]
      refine Frame.weight_lt_of_height ?_
      rw [isNode]
      exact Node.height_expression_lt id demand

end Move.Descends

namespace Frame

/-- A frame that pushes anything but a statement makes the weights smaller. -/
theorem weights_lt
    {tree : Tree}
    {depth : Nat}
    {frame stay child : Frame}
    {below : List Frame}
    (descends : Move.Descends tree frame (.push stay child))
    (countable : tree.Countable)
    (sorted : ∀ id node, tree.expr? id = some node →
      ∀ part ∈ node.kind.children, part.index < id.index)
    (notEntry : ¬ child.AtEntry)
    (sameNode : stay.node = frame.node)
    (room : owners (child :: stay :: below) ≤ depth) :
    (weights depth (child :: stay :: below)).IsDershowitzMannaLT
      (weights depth (frame :: below)) := by
  have sameOwners : owners (stay :: below) = owners (frame :: below) := by
    simp [owners, List.countP_cons, sameNode]
  have counted :
      owners (child :: stay :: below) =
        owners (frame :: below) + if child.node.ownsActivation then 1 else 0 := by
    rw [← sameOwners]
    exact List.countP_cons
  refine ⟨weights depth below,
    {child.weight (depth - owners (child :: stay :: below)),
      stay.weight (depth - owners (stay :: below))},
    {frame.weight (depth - owners (frame :: below))}, by simp, ?_, ?_, ?_⟩
  · simp only [weights, Multiset.insert_eq_cons, Multiset.add_cons, Multiset.add_comm _ {_},
      Multiset.singleton_add]
  · rw [weights, Multiset.add_comm, Multiset.singleton_add]
  · simp only [Multiset.insert_eq_cons, Multiset.mem_cons, Multiset.mem_singleton,
      exists_eq_left, forall_eq_or_imp, forall_eq]
    refine ⟨descends.weight_lt sorted notEntry (fun owns => ?_) fun owns => ?_, ?_⟩
    · rw [if_pos owns] at counted
      omega
    · rw [counted, owns]
      rfl
    · rw [sameOwners]
      exact weight_lt_of_left sameNode (descends.left_lt countable notEntry)

/-- A frame that is done makes the weights smaller. -/
theorem weights_tail_lt
    {depth : Nat}
    {frame : Frame}
    {below : List Frame} :
    (weights depth below).IsDershowitzMannaLT (weights depth (frame :: below)) :=
  ⟨weights depth below, 0, {frame.weight (depth - owners (frame :: below))}, by simp, by simp,
    by rw [weights, Multiset.add_comm, Multiset.singleton_add], by simp⟩

end Frame

namespace Machine

variable {setting : Setting} {machine next : Machine}

/-- A frame that stays below another one stays at its node. -/
theorem Aligned.stay_node
    {frame stay child : Frame}
    {below : List Frame}
    (aligned : machine.Aligned setting)
    (frames : machine.frames = frame :: below)
    (moved : machine.advance setting = .moved next)
    (pushed : next.frames = child :: stay :: below) :
    stay.node = frame.node := by
  have longer {others : List Frame} (same : next.frames = others) :
      others.length = below.length + 2 := by
    rw [← same, pushed]
    rfl
  obtain ⟨same, -⟩ | ⟨other, _, stays, same⟩ | ⟨_, -, same⟩ | ⟨_, -, same, -⟩ :=
    aligned.goes_cons frames (.moved moved)
  · have short := longer (same.trans frames)
    simp at short
  · cases pushed.symm.trans same
    exact stays.1
  · have short := longer same
    simp at short
  · have short := longer same
    omega

/-- Turns that count no step lead to an end. -/
theorem Aligned.settles
    (countable : setting.tree.Countable)
    (sorted : ∀ id node, setting.tree.expr? id = some node →
      ∀ part ∈ node.kind.children, part.index < id.index)
    (aligned : machine.Aligned setting) :
    Acc (fun next machine => Moves setting machine next) machine := by
  generalize isWeights :
    Frame.weights (max 1 setting.callDepth.toNat) machine.frames = weights
  have wellFounded :
      WellFounded (Multiset.IsDershowitzMannaLT (α := Nat ×ₗ Nat ×ₗ Nat)) :=
    Multiset.wellFounded_isDershowitzMannaLT
  induction weights using wellFounded.induction generalizing machine with
  | _ weights inductionHypothesis =>
    refine ⟨_, fun next moved => ?_⟩
    have nextAligned := aligned.advance (.inl moved)
    obtain ⟨frame, below, frames⟩ := List.exists_cons_of_ne_nil (frames_ne_nil moved)
    rw [frames] at isWeights
    obtain ⟨stay, child, descends, pushed⟩ | popped := frames_moved frames moved
    · by_cases atEntry : child.AtEntry
      · refine ⟨_, fun later again => ?_⟩
        obtain ⟨_, counted⟩ := advance_atEntry pushed atEntry
        cases again.symm.trans counted
      · refine inductionHypothesis _ ?_ nextAligned rfl
        have sameNode := aligned.stay_node frames moved pushed
        rw [pushed, ← isWeights]
        refine Frame.weights_lt descends countable sorted atEntry sameNode ?_
        rw [← pushed, nextAligned.stacked.length_outlines]
        exact nextAligned.depth
    · refine inductionHypothesis _ ?_ nextAligned rfl
      rw [popped, ← isWeights]
      exact Frame.weights_tail_lt

/-! ## Slices -/

/-- A chain of turns that lead to an end is not longer than some bound. -/
theorem length_le_of_settled
    (settled : Acc (fun next machine => Moves setting machine next) machine) :
    ∃ turns : Nat, ∀ chain : List Machine,
      List.IsChain (Moves setting) (machine :: chain) → chain.length ≤ turns := by
  induction settled with
  | intro machine _ inductionHypothesis =>
      by_cases goesOn : ∃ next, Moves setting machine next
      · obtain ⟨next, moved⟩ := goesOn
        obtain ⟨turns, bound⟩ := inductionHypothesis next moved
        refine ⟨turns + 1, fun chain isChain => ?_⟩
        cases chain with
        | nil => exact Nat.zero_le _
        | cons first rest =>
            obtain ⟨again, isChain⟩ := List.isChain_cons_cons.mp isChain
            cases again.symm.trans moved
            exact Nat.succ_le_succ (bound rest isChain)
      · refine ⟨0, fun chain isChain => ?_⟩
        cases chain with
        | nil => exact Nat.le_refl 0
        | cons first rest =>
            exact absurd ⟨first, (List.isChain_cons_cons.mp isChain).1⟩ goesOn

/-- Turns that lead to an end take a slice to the next step that is counted. -/
theorem exists_slice_of_settled
    {budget : Option Nat}
    (settled : Acc (fun next machine => Moves setting machine next) machine)
    (goesOn :
      ∀ last next, Relation.ReflTransGen (Moves setting) machine last →
        last.advance setting = .counted next → next.host.stopRequested = false →
        ∃ result, Slice setting budget last result) :
    ∃ result, Slice setting budget machine result := by
  induction settled with
  | intro machine _ inductionHypothesis =>
      cases turn : machine.advance setting with
      | ended last => exact ⟨_, .ended turn⟩
      | moved next =>
          obtain ⟨rest, slice⟩ := inductionHypothesis next turn
            fun last later moves => goesOn last later (.head turn moves)
          exact ⟨_, .moved turn slice⟩
      | counted next =>
          cases stop : next.host.stopRequested with
          | true => exact ⟨_, .stopped turn stop⟩
          | false => exact goesOn machine next .refl turn stop

/-- If turns that count no step lead to an end, then so do those of a slice. -/
theorem exists_slice
    (settles :
      ∀ {machine : Machine}, machine.Attained setting →
        Acc (fun next machine => Moves setting machine next) machine)
    (attained : machine.Attained setting)
    (steps : Nat) :
    ∃ result, Slice setting (some (steps + 1)) machine result := by
  induction steps generalizing machine with
  | zero =>
      exact exists_slice_of_settled (settles attained)
        fun _ _ _ counted stop => ⟨_, .paused counted stop⟩
  | succ steps inductionHypothesis =>
      refine exists_slice_of_settled (settles attained) fun last next moves counted stop => ?_
      have reached := (attained.moves moves).advanced
      rw [counted] at reached
      obtain ⟨rest, slice⟩ := inductionHypothesis reached
      exact ⟨_, .counted (some (steps + 1)) counted stop (by simp) slice⟩

/--
In every state of an accepted program there is a bound on the turns that can follow
each other without a counted step, and every call of `run` with a budget comes to its end.
-/
theorem attained_ends
    {registry : Registry}
    {source : String}
    {tree : Tree}
    {callDepth : UInt32}
    (short : source.utf8ByteSize < UInt32.size)
    (accepted : compile registry (TokenList.ofSource registry.constants source) = .ok tree)
    (fits : tree.Fits)
    (fields : tree.FieldsFit)
    (attained : machine.Attained ⟨tree, registry, callDepth⟩) :
    (∃ turns : Nat, ∀ chain : List Machine,
      List.IsChain (Moves ⟨tree, registry, callDepth⟩) (machine :: chain) →
        chain.length ≤ turns) ∧
    ∀ budget : Nat, ∃ result,
      machine.RunsTo ⟨tree, registry, callDepth⟩ (some budget) result := by
  have offers : registry.Offers fun _ => True := ⟨fun _ _ _ _ => trivial, fun _ _ => trivial⟩
  have built := compile_built offers accepted
  obtain ⟨ended, size⟩ := CompileContext.ended_ofSource registry short
  have countable := built.countable ended size fits fields
  have sorted (id : ExprId) (node : Expr) (found : tree.expr? id = some node) :
      ∀ part ∈ node.kind.children, part.index < id.index := by
    obtain ⟨own, sound⟩ := built.sound
    exact (sound.exprs id.index node found).children
  have settles {machine : Machine} (attained : machine.Attained ⟨tree, registry, callDepth⟩) :
      Acc (fun next machine => Moves ⟨tree, registry, callDepth⟩ machine next) machine :=
    attained.aligned.settles countable sorted
  refine ⟨length_le_of_settled (settles attained), fun budget => ?_⟩
  simp only [runsTo_iff]
  by_cases running : machine.outcome = .running
  · cases stop : machine.host.stopRequested with
    | true => exact ⟨_, .inr (.inl ⟨running, rfl, rfl⟩)⟩
    | false =>
        cases budget with
        | zero => exact ⟨_, .inr (.inr (.inl ⟨running, rfl, rfl, rfl⟩))⟩
        | succ steps =>
            obtain ⟨result, slice⟩ := exists_slice settles attained steps
            exact ⟨result, .inr (.inr (.inr ⟨running, rfl, by simp, slice⟩))⟩
  · exact ⟨_, .inl ⟨running, rfl⟩⟩

/-- An endless loop around instances of a class whose fields make instances of the class. -/
def nestingText : String :=
  "class A\x7bA next=new A();\x7dvoid main()\x7bfor(;;)try\x7bnew A();\x7d" ++
    "catch(true)\x7b\x7d\x7d"

/-- The loop runs over a call depth of five up to any budget, and never ends by itself. -/
theorem attained_ends_nesting :
    ∃ tree : Tree,
      compile .standard (TokenList.ofSource Registry.standard.constants nestingText) = .ok tree ∧
        nestingText.utf8ByteSize < UInt32.size ∧ tree.Fits ∧ tree.FieldsFit ∧
          ∀ budget, ∃ result,
            (start ⟨tree, .standard, 5⟩ ⟨0⟩ default).RunsTo ⟨tree, .standard, 5⟩ (some budget)
              result := by
  have short : nestingText.utf8ByteSize < UInt32.size := by decide +kernel
  have sizes :
      (compile .standard
          (TokenList.ofSource Registry.standard.constants nestingText)).toOption.map
          (fun tree => ([tree.exprs.size, tree.stmts.size, tree.functions.size, tree.classes.size,
            tree.methodKeys.size, (tree.instanceFields (Id.ofIndex 0)).length],
            tree.classes.toList.map (·.statics.length))) =
        some ([3, 5, 1, 1, 0, 1], [0]) := by
    decide +kernel
  cases accepted : compile .standard (TokenList.ofSource Registry.standard.constants nestingText) with
  | error error =>
      rw [accepted] at sizes
      cases sizes
  | ok tree =>
      rw [accepted] at sizes
      simp only [Except.toOption, Option.map_some, Option.some.injEq, Prod.mk.injEq,
        List.cons.injEq] at sizes
      obtain ⟨⟨exprs, stmts, functions, classes, keys, instances, -⟩, statics⟩ := sizes
      have fits : tree.Fits := by
        constructor <;> simp only [exprs, stmts, functions, classes, keys] <;> decide
      have fields : tree.FieldsFit := by
        refine ⟨fun entry isEntry => ?_, fun index inside => ?_⟩
        · have isLength := List.mem_map_of_mem (f := (·.statics.length)) isEntry.val
          rw [statics, List.mem_singleton] at isLength
          rw [isLength]
          decide
        · rw [classes, Nat.lt_one_iff] at inside
          rw [inside, instances]
          decide
      exact ⟨tree, rfl, short, fits, fields,
        (attained_ends short accepted fits fields (.started ⟨0⟩ default)).2⟩

end Machine

end BotScript
