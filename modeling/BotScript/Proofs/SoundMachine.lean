import BotScript.Proofs.PushedParts
import BotScript.Proofs.SoundExpression
import BotScript.Proofs.Turn

namespace BotScript

/-!
# Sound machines

The step of any frame keeps a memory sound, and its move fits: it goes to a
step that the node has.

Every frame of a running machine can have been pushed by the frame below it.
It is at a step of its node, and it either owns the activation on top of those
of the frames below, or shares the activation of the frame below.  Turns keep
this, and so do the ends of slices.
-/

open Restored (Bounds)

/-! ## Frames over sound memories -/

namespace Step

variable {tree : Tree} {setting : Setting} {floor : Bounds} {origin frame : Frame}
  {incoming : Option Completion}

namespace Plays

/-! ## The root frame -/

/-- The last step of the root frame. -/
theorem lastState_start
    {entry : FuncId}
    (isNode : origin.node = .start entry) :
    origin.node.lastState? tree = some 3 := by
  rw [isNode]
  rfl

/-- The entry function. -/
theorem callEntry
    {entry : FuncId}
    (isNode : origin.node = .start entry)
    (stands : frame.Stands floor origin) :
    Plays setting.tree floor origin (Step.callEntry setting frame entry) := by
  refine bind (Keeps.require _ _) ?_
  rintro _ function - ⟨rfl, found⟩
  refine bind (Keeps.activationFor found Bounds.cover_nil) ?_
  rintro later activation grown ⟨activationSound, -⟩
  exact pushOwner (lastState_start isNode) (by exact stands.mono grown) (UInt32.le_refl 3) rfl
    setting activationSound

/-- The next initial value of a static field, or the entry function. -/
theorem startNext
    {entry : FuncId}
    (isNode : origin.node = .start entry)
    (stands : frame.Stands floor origin) :
    Plays setting.tree floor origin (Step.startNext setting frame entry) := by
  unfold Step.startNext
  dsimp only
  split
  · exact pushExpression (lastState_start isNode) (by exact stands)
      (by decide : (1 : UInt32) ≤ 3) _ _
  · exact callEntry isNode (by exact stands)

end Plays

/-- The store of the initial value of a static field. -/
theorem Keeps.storeStatic
    {value : Value}
    (covered : floor.Cover value.refs) :
    Keeps setting.tree floor (fun _ _ => True) (Step.storeStatic setting frame value) := by
  refine (Keeps.require _ _).bind ?_
  rintro _ field - ⟨rfl, -⟩
  refine (Keeps.require _ _).bind ?_
  rintro _ initial - ⟨rfl, -⟩
  refine (Keeps.typeOf initial).bind ?_
  rintro _ source - ⟨rfl, -⟩
  refine Keeps.get.bind ?_
  rintro _ memory - ⟨rfl, -, -⟩
  refine (Keeps.require _ _).bind ?_
  rintro _ cell - ⟨rfl, -⟩
  exact Keeps.storeDeclared covered source field.limits

namespace Plays

/-- A step of the root frame. -/
theorem start
    {entry : FuncId}
    (isNode : origin.node = .start entry)
    (stands : frame.Stands floor origin)
    (covered : floor.Cover (incoming.toList.flatMap Completion.refs)) :
    Plays setting.tree floor origin (Step.start setting frame entry incoming) := by
  unfold Step.start
  split
  · exact startNext isNode stands
  · refine bind (Keeps.valueOf covered) ?_
    rintro _ value - ⟨rfl, valueCovered⟩
    refine bind (Keeps.storeStatic valueCovered) ?_
    rintro later _ grown -
    exact startNext isNode (by exact stands.mono grown)
  · exact callEntry isNode stands
  · refine bind (Keeps.valueOf covered) ?_
    rintro _ value - ⟨rfl, valueCovered⟩
    exact complete valueCovered

/-! ## Functions -/

/-- A step of the body of a function. -/
theorem function
    {id : FuncId}
    (isNode : origin.node = .function id)
    (stands : frame.Stands floor origin)
    (covered : floor.Cover (incoming.toList.flatMap Completion.refs)) :
    Plays setting.tree floor origin (Step.function setting frame id incoming) := by
  refine bind (Keeps.part _) ?_
  rintro _ function - ⟨rfl, -⟩
  have known : origin.node.lastState? setting.tree = some 1 := by
    rw [isNode]
    rfl
  have unreturned :
      Plays setting.tree floor origin
        (if function.result.isVoid then Pure.pure (.complete (.value .void))
        else Step.raise .noReturnValue) := by
    split
    · exact complete Bounds.cover_nil
    · exact raise _
  split
  · refine bind (Keeps.require _ _) ?_
    rintro _ body - ⟨rfl, own⟩
    exact pushStatement known (by exact stands) (UInt32.le_refl 1) _
  · cases incoming with
    | none => exact unreturned
    | some completion =>
        cases completion with
        | returned value => exact complete (by simpa [Completion.refs] using covered)
        | thrown error => exact complete Bounds.cover_nil
        | normal => exact unreturned
        | value value => exact unreturned
        | place cell => exact unreturned
        | breakTo label => exact unreturned
        | continueTo label => exact unreturned

/-! ## Field values -/

/-- The fields of a new instance up to the next initial value. -/
theorem setupFrom
    (known : origin.node.lastState? tree = some 1)
    (this : ObjectId)
    (fields : List FieldDef)
    (stands : frame.Stands floor origin) :
    Plays tree floor origin (Step.setupFrom this frame fields) := by
  induction fields generalizing floor frame with
  | nil => exact done
  | cons field rest inductionHypothesis =>
      have goOn {later : Bounds} (grown : floor ≤ later) :
          Plays tree later origin
            (Step.setupFrom this { frame with cursor := frame.cursor + 1 } rest) :=
        inductionHypothesis (by exact stands.mono grown)
      unfold Step.setupFrom
      split
      · exact pushExpression known (by exact stands) (UInt32.le_refl 1) _ _
      · dsimp only
        split
        · refine bind Keeps.heap ?_
          rintro _ heap - ⟨rfl, -, -⟩
          refine bind (Keeps.require _ _) ?_
          rintro _ cell - ⟨rfl, -⟩
          refine bind (Keeps.freshCell field.ty field.limits) ?_
          intro later content grown covered
          refine bind (Keeps.modifyHeap fun heap sound size =>
            sound.setCell cell (size ▸ covered)) ?_
          rintro _ _ - ⟨rfl, -⟩
          exact goOn grown
        · exact goOn le_rfl

end Plays

/-- The store of the initial value of a field. -/
theorem Keeps.storeField
    {this : ObjectId}
    {fields : List FieldDef}
    {value : Value}
    (covered : floor.Cover value.refs) :
    Keeps tree floor (fun _ _ => True) (Step.storeField tree this frame fields value) := by
  refine (Keeps.require _ _).bind ?_
  rintro _ field - ⟨rfl, -⟩
  refine (Keeps.require _ _).bind ?_
  rintro _ initial - ⟨rfl, -⟩
  refine (Keeps.typeOf initial).bind ?_
  rintro _ source - ⟨rfl, -⟩
  refine Keeps.heap.bind ?_
  rintro _ heap - ⟨rfl, -, -⟩
  refine (Keeps.require _ _).bind ?_
  rintro _ cell - ⟨rfl, -⟩
  exact Keeps.storeDeclared covered source field.limits

namespace Plays

/-- A step of the field values of a new instance. -/
theorem fieldSetup
    {owner : ClassId}
    (isNode : origin.node = .fieldSetup owner)
    (stands : frame.Stands floor origin)
    (covered : floor.Cover (incoming.toList.flatMap Completion.refs)) :
    Plays setting.tree floor origin (Step.fieldSetup setting frame owner incoming) := by
  have known : origin.node.lastState? setting.tree = some 1 := by
    rw [isNode]
    rfl
  refine bind (Keeps.part _) ?_
  rintro _ entry - ⟨rfl, -⟩
  refine bind (Keeps.activationOf frame) ?_
  rintro _ activation - ⟨rfl, -⟩
  refine bind (Keeps.require _ _) ?_
  rintro _ this - ⟨rfl, -⟩
  split
  · refine bind (Keeps.valueOf covered) ?_
    rintro _ value - ⟨rfl, valueCovered⟩
    refine bind (Keeps.storeField valueCovered) ?_
    rintro later _ grown -
    exact setupFrom known this _ (by exact stands.mono grown)
  · refine bind (Keeps.settle covered) ?_
    rintro _ _ - ⟨rfl, -⟩
    exact setupFrom known this _ stands

/-! ## All frames -/

/-- The step of a frame. -/
theorem ofFrame
    (natives : setting.registry.KeepsHeaps setting.tree)
    (covered : floor.Cover frame.refs)
    (within : frame.WithinStates setting.tree)
    (incomingCovered : floor.Cover (incoming.toList.flatMap Completion.refs)) :
    Plays setting.tree floor frame (Step.ofFrame setting frame incoming) := by
  have stands : frame.Stands floor frame := ⟨rfl, rfl, covered⟩
  unfold Step.ofFrame
  split
  · next entry isNode => exact start isNode stands incomingCovered
  · next id isNode => exact function isNode stands incomingCovered
  · next owner isNode => exact fieldSetup isNode stands incomingCovered
  · next id isNode => exact statement isNode stands within incomingCovered
  · next id demand isNode => exact expression natives isNode stands within incomingCovered

end Plays

end Step

/-! ## Sound machines -/

/-- A frame is at a step of its node, and what it refers to exists. -/
structure Frame.Sound (tree : Tree) (bounds : Bounds) (frame : Frame) : Prop where
  state : frame.WithinStates tree
  refs : bounds.Cover frame.refs

/-- A node of the program can push another one. -/
structure Node.Pushes (tree : Tree) (parent child : Node) : Prop where
  known : (parent.lastState? tree).isSome
  pushes : tree.canPush parent child = true

/-- A chain of frames, the innermost first, over a number of activations. -/
inductive Chain (tree : Tree) (bounds : Bounds) : Nat → List Frame → Prop where
  | root
      {frame : Frame}
      {entry : FuncId} :
      frame.Sound tree bounds →
      frame.node = .start entry →
      (tree.function? entry).isSome →
      frame.act = 0 →
      Chain tree bounds 1 [frame]
  | part
      {height : Nat}
      {frame parent : Frame}
      {below : List Frame} :
      frame.Sound tree bounds →
      parent.node.Pushes tree frame.node →
      frame.node.ownsActivation = false →
      frame.act = parent.act →
      Chain tree bounds height (parent :: below) →
      Chain tree bounds height (frame :: parent :: below)
  | owner
      {height : Nat}
      {frame parent : Frame}
      {below : List Frame} :
      frame.Sound tree bounds →
      parent.node.Pushes tree frame.node →
      frame.node.ownsActivation = true →
      frame.act.toNat = height →
      Chain tree bounds height (parent :: below) →
      Chain tree bounds (height + 1) (frame :: parent :: below)

/-- A machine whose parts exist, and whose frames form a chain as long as there are any. -/
structure Machine.Sound (tree : Tree) (machine : Machine) : Prop where
  memory : machine.memory.Sound tree
  chain :
    machine.frames ≠ [] →
      Chain tree machine.memory.bounds machine.memory.activations.size machine.frames
  incoming : machine.memory.bounds.Cover (machine.incoming.toList.flatMap Completion.refs)
  result :
    ∀ result, machine.outcome = .finished result → machine.memory.bounds.Cover result.refs

namespace Chain

variable {tree : Tree} {bounds later : Bounds} {height : Nat} {frame other : Frame}
  {below frames : List Frame}

/-- A chain stays one while the heap grows. -/
theorem mono
    (chain : Chain tree bounds height frames)
    (grown : bounds ≤ later) :
    Chain tree later height frames := by
  induction chain with
  | root sound isRoot known act => exact .root ⟨sound.state, sound.refs.mono grown⟩ isRoot known act
  | part sound pushes shares act _ inductionHypothesis =>
      exact .part ⟨sound.state, sound.refs.mono grown⟩ pushes shares act inductionHypothesis
  | owner sound pushes owns act _ inductionHypothesis =>
      exact .owner ⟨sound.state, sound.refs.mono grown⟩ pushes owns act inductionHypothesis

/-- The innermost frame is at a step of its node, and what it refers to exists. -/
theorem top
    (chain : Chain tree bounds height (frame :: below)) :
    frame.Sound tree bounds := by
  cases chain <;> assumption

/-- The innermost frame can go on to another step. -/
theorem withTop
    (chain : Chain tree bounds height (frame :: below))
    (sound : other.Sound tree bounds)
    (node : other.node = frame.node)
    (act : other.act = frame.act) :
    Chain tree bounds height (other :: below) := by
  cases chain with
  | root _ isRoot known isFirst =>
      exact .root sound (node.trans isRoot) known (act.trans isFirst)
  | part _ pushes shares same rest =>
      exact .part sound (node ▸ pushes) (node ▸ shares) (act.trans same) rest
  | owner _ pushes owns isTop rest =>
      exact .owner sound (node ▸ pushes) (node ▸ owns) (act ▸ isTop) rest

/-- Every frame reads its variables from an activation that exists. -/
theorem act_lt
    (chain : Chain tree bounds height frames) :
    ∀ frame ∈ frames, frame.act.toNat < height := by
  induction chain with
  | root _ _ _ act => simp [act]
  | @part _ frame parent below _ _ _ act _ inductionHypothesis =>
      intro other member
      rcases List.mem_cons.mp member with rfl | member
      · exact act ▸ inductionHypothesis parent (List.mem_cons_self ..)
      · exact inductionHypothesis other member
  | owner _ _ _ act _ inductionHypothesis =>
      intro other member
      rcases List.mem_cons.mp member with rfl | member
      · omega
      · exact Nat.lt_succ_of_lt (inductionHypothesis other member)

/-- The frames below the innermost one form a chain once what it owned is given up. -/
theorem tail
    (chain : Chain tree bounds height (frame :: below))
    (goesOn : below ≠ []) :
    if frame.node.ownsActivation then
      frame.act.toNat + 1 = height ∧ Chain tree bounds frame.act.toNat below
    else Chain tree bounds height below := by
  cases chain with
  | root => exact absurd rfl goesOn
  | part _ _ shares _ rest => simpa [shares] using rest
  | owner _ _ owns isTop rest => simpa [owns, isTop] using rest

/-- The frames of a chain refer to parts that exist. -/
theorem refs
    (chain : Chain tree bounds height frames) :
    ∀ frame ∈ frames, bounds.Cover frame.refs := by
  induction chain with
  | root sound => simpa using sound.refs
  | part sound _ _ _ _ inductionHypothesis =>
      exact List.forall_mem_cons.mpr ⟨sound.refs, inductionHypothesis⟩
  | owner sound _ _ _ _ inductionHypothesis =>
      exact List.forall_mem_cons.mpr ⟨sound.refs, inductionHypothesis⟩

/-- The outermost frame of a chain runs a function of the program. -/
theorem entry
    (chain : Chain tree bounds height frames) :
    ∃ root entry,
      frames.getLast? = some root ∧ root.node = .start entry ∧ (tree.function? entry).isSome := by
  induction chain with
  | root _ isRoot known => exact ⟨_, _, rfl, isRoot, known⟩
  | part _ _ _ _ _ inductionHypothesis => simpa using inductionHypothesis
  | owner _ _ _ _ _ inductionHypothesis => simpa using inductionHypothesis

end Chain

/-! ## Closed files -/

/-- To close the file of an instance leaves the heap sound. -/
theorem World.closeFile_sound
    {tree : Tree}
    {world : World}
    (sound : world.heap.Sound tree)
    (id : ObjectId) :
    (world.closeFile id).heap.Sound tree ∧
      (world.closeFile id).heap.bounds = world.heap.bounds := by
  unfold World.closeFile
  dsimp only
  split
  · exact sound.setOpenFile id none
  · exact ⟨sound, rfl⟩

/-- To close unused files leaves the heap sound. -/
theorem World.closeUnused_sound
    {tree : Tree}
    {world : World}
    (sound : world.heap.Sound tree)
    (roots : List HeapRef) :
    (world.closeUnused roots).heap.Sound tree ∧
      (world.closeUnused roots).heap.bounds = world.heap.bounds := by
  have closed (indices : List Nat) (world : World) (sound : world.heap.Sound tree) :
      (indices.foldl (fun world index => world.closeFile ⟨index⟩) world).heap.Sound tree ∧
        (indices.foldl (fun world index => world.closeFile ⟨index⟩) world).heap.bounds =
          world.heap.bounds := by
    induction indices generalizing world with
    | nil => exact ⟨sound, rfl⟩
    | cons index rest inductionHypothesis =>
        obtain ⟨first, same⟩ := World.closeFile_sound sound ⟨index⟩
        obtain ⟨others, othersSame⟩ := inductionHypothesis _ first
        exact ⟨others, othersSame.trans same⟩
  unfold World.closeUnused
  dsimp only
  split
  · exact ⟨sound, rfl⟩
  · exact closed _ world sound

/-- Another world whose heap has the same parts. -/
theorem Memory.Sound.withSameWorld
    {tree : Tree}
    {memory : Memory}
    (sound : memory.Sound tree)
    {world : World}
    (heap : world.heap.Sound tree)
    (same : world.heap.bounds = memory.bounds) :
    Memory.Sound tree { memory with world } :=
  (sound.withWorld ⟨heap, same.ge⟩).sound

/-! ## Static fields -/

/-- The cells of the static fields of a class. -/
theorem Heap.Sound.addStatics
    {tree : Tree}
    {heap : Heap}
    (sound : heap.Sound tree)
    (fields : List FieldDef) :
    heap.Becomes tree (heap.addStatics fields).2 ∧
      (∀ id ∈ (heap.addStatics fields).1, id.index < (heap.addStatics fields).2.bounds.cells) ∧
      (heap.addStatics fields).1.size = fields.length := by
  induction fields generalizing heap with
  | nil => exact ⟨sound.becomes, by simp [Heap.addStatics], rfl⟩
  | cons field rest inductionHypothesis =>
      obtain ⟨added, within⟩ := sound.addFresh field.ty field.limits
      obtain ⟨others, othersWithin, size⟩ := inductionHypothesis added.sound
      refine ⟨added.trans others, ?_, ?_⟩
      · intro id member
        simp only [Heap.addStatics, Array.mem_append, Array.mem_singleton] at member
        rcases member with rfl | member
        · exact Nat.lt_of_lt_of_le within others.grown.cells
        · exact othersWithin id member
      · simp only [Heap.addStatics, Array.size_append, size, List.length_cons]
        simp [Nat.add_comm]

/-- The cells of the static fields of several classes. -/
theorem Heap.Sound.addClassStatics
    {tree : Tree}
    {heap : Heap}
    (sound : heap.Sound tree)
    (classes : List ClassDef) :
    heap.Becomes tree (heap.addClassStatics classes).2 ∧
      (∀ fields ∈ (heap.addClassStatics classes).1, ∀ id ∈ fields,
        id.index < (heap.addClassStatics classes).2.bounds.cells) ∧
      (heap.addClassStatics classes).1.toList.map Array.size =
        classes.map fun owner => owner.statics.length := by
  induction classes generalizing heap with
  | nil => exact ⟨sound.becomes, by simp [Heap.addClassStatics], rfl⟩
  | cons owner rest inductionHypothesis =>
      obtain ⟨added, within, size⟩ := sound.addStatics owner.statics
      obtain ⟨others, othersWithin, sizes⟩ := inductionHypothesis added.sound
      refine ⟨added.trans others, ?_, ?_⟩
      · intro fields member id idMember
        simp only [Heap.addClassStatics, Array.mem_append, Array.mem_singleton] at member
        rcases member with rfl | member
        · exact Nat.lt_of_lt_of_le (within id idMember) others.grown.cells
        · exact othersWithin fields member id idMember
      · simp [Heap.addClassStatics, size, sizes]

/-! ## Turns -/

namespace Machine

variable {setting : Setting} {machine : Machine}

namespace Sound

variable {tree : Tree}

/-- Another world whose heap has the same parts. -/
theorem withWorld
    (sound : machine.Sound tree)
    {world : World}
    (heap : world.heap.Sound tree)
    (same : world.heap.bounds = machine.memory.bounds) :
    Machine.Sound tree { machine with memory := { machine.memory with world } } where
  memory := sound.memory.withSameWorld heap same
  chain goesOn := by
    have chain := sound.chain goesOn
    rwa [← same] at chain
  incoming := by
    have covered := sound.incoming
    rwa [← same] at covered
  result result finished := by
    have covered := sound.result result finished
    rwa [← same] at covered

/-- To close unused files keeps a machine sound. -/
theorem closeUnused
    (sound : machine.Sound tree) :
    machine.closeUnused.Sound tree := by
  obtain ⟨heap, same⟩ := World.closeUnused_sound sound.memory.heap machine.refs
  exact sound.withWorld heap same

/-- Another state of the host. -/
theorem withHost
    (sound : machine.Sound tree)
    (host : Host) :
    (machine.withHost host).Sound tree :=
  sound.withWorld sound.memory.heap rfl

/-- An end without a chain. -/
theorem finish
    (sound : machine.Sound tree)
    (ended : machine.frames = []) :
    machine.finish.Sound tree where
  memory := sound.memory
  chain goesOn := absurd ended goesOn
  incoming := Bounds.cover_nil
  result result finished := by
    have covered := sound.incoming
    unfold Machine.finish at finished
    dsimp only at finished
    split at finished
    · cases finished
    · next found =>
        cases finished
        have held : machine.memory.bounds.Cover result.refs := by
          simpa [found, Completion.refs] using covered
        exact held
    · next found =>
        cases finished
        have held : machine.memory.bounds.Cover result.refs := by
          simpa [found, Completion.refs] using covered
        exact held
    · cases finished
      exact Bounds.cover_nil

/-- A chain that is given up. -/
theorem abort
    (sound : machine.Sound tree) :
    (machine.abort setting).Sound tree where
  memory :=
    ⟨sound.memory.heap, sound.memory.statics, sound.memory.staticShape, by simp [Machine.abort]⟩
  chain goesOn := absurd rfl goesOn
  incoming := Bounds.cover_nil
  result result finished := by simp [Machine.abort] at finished

section Turns

variable {memory after : Memory} {frame : Frame} {below : List Frame}
  {incoming : Option Completion} {outcome : Outcome} {steps : UInt64}

/-- A frame that is done. -/
theorem completed
    (sound : after.Sound tree)
    (chain : Chain tree after.bounds after.activations.size (frame :: below))
    {completion : Completion}
    (covered : after.bounds.Cover completion.refs)
    (result :
      ∀ result, outcome = .finished result → after.bounds.Cover result.refs) :
    Machine.Sound tree
      ⟨memoryAfter frame after, below, some completion, outcome, steps⟩ := by
  obtain ⟨world, activations, statics⟩ := after
  have rest := chain.tail
  have delivered :
      Memory.bounds ⟨world, activations, statics⟩ |>.Cover
        ((some completion).toList.flatMap Completion.refs) := by
    simpa using covered
  unfold memoryAfter
  dsimp only
  split
  · next owns =>
      rw [if_pos owns] at rest
      refine ⟨⟨sound.heap, sound.statics, sound.staticShape, ?_⟩, ?_, ?_, result⟩
      · intro activation member
        rw [← Array.mem_toList_iff, Array.toList_shrink] at member
        exact sound.activations activation (by simpa using List.mem_of_mem_take member)
      · intro goesOn
        obtain ⟨height, belowChain⟩ := rest goesOn
        have size : (activations.shrink frame.act.toNat).size = frame.act.toNat := by
          simp only [Array.size_shrink]
          have : frame.act.toNat + 1 = activations.size := height
          omega
        dsimp only
        rw [size]
        exact belowChain
      · exact delivered
  · next shares =>
      rw [if_neg shares] at rest
      exact ⟨sound, rest, delivered, result⟩

/-- A turn behind the move of the innermost frame. -/
theorem played
    (natives : setting.registry.KeepsHeaps setting.tree)
    (sound : Machine.Sound setting.tree ⟨memory, frame :: below, incoming, outcome, steps⟩) :
    (afterMove frame below outcome steps
      (frame.play setting incoming memory)).machine.Sound setting.tree := by
  obtain ⟨memorySound, chain, incomingCovered, result⟩ := sound
  replace chain := chain (List.cons_ne_nil _ _)
  have played :=
    Step.Plays.ofFrame natives chain.top.refs chain.top.state incomingCovered memory memorySound
      rfl
  have descends := Step.Descends.ofFrame setting frame incoming memory
  unfold Frame.play
  revert played descends
  generalize (Step.ofFrame setting frame incoming).run.run memory = taken
  intro played descends
  cases played with
  | @ok move after afterSound grown fits =>
      replace chain := chain.mono grown
      have resultLater (value : Value) (finished : outcome = .finished value) :
          after.bounds.Cover value.refs :=
        (result value finished).mono grown
      cases move with
      | push frame' child =>
          obtain ⟨⟨node, act, refs⟩, state, known, enters, owner⟩ := fits
          have pushes : setting.tree.canPush frame.node child.node = true := by
            cases descends with
            | ok descends => exact descends.bears.pushes
          refine ⟨afterSound, fun _ => ?_, Bounds.cover_nil, resultLater⟩
          have replaced := chain.withTop ⟨state, refs⟩ node act
          have pushes : frame'.node.Pushes setting.tree child.node :=
            node ▸ ⟨known, pushes⟩
          have childSound : child.Sound setting.tree after.bounds := by
            rw [enters]
            exact ⟨fun last _ => UInt32.zero_le, by simp [Frame.enter, Frame.refs]⟩
          change Chain setting.tree after.bounds after.activations.size (child :: frame' :: below)
          split at owner
          · next owns =>
              rw [owner.1]
              exact .owner childSound pushes owns owner.2 replaced
          · next shares =>
              rw [owner.1]
              exact .part childSound pushes (by simpa using shares) (owner.2.trans act.symm)
                replaced
      | tick frame' =>
          obtain ⟨⟨node, act, refs⟩, state, -, same⟩ := fits
          refine ⟨afterSound, fun _ => ?_, Bounds.cover_nil, resultLater⟩
          have replaced := chain.withTop ⟨state, refs⟩ node act
          rwa [← same] at replaced
      | complete completion =>
          obtain ⟨covered, same⟩ := fits
          exact completed afterSound (by rwa [same]) covered resultLater
  | @error interrupt after becomes covered =>
      replace chain := chain.mono becomes.grown
      rw [← becomes.height] at chain
      have resultLater (value : Value) (finished : outcome = .finished value) :
          after.bounds.Cover value.refs :=
        (result value finished).mono becomes.grown
      have broken (fault : Fault) :
          Machine.Sound setting.tree ⟨after, frame :: below, none, .broken fault, steps⟩ :=
        ⟨becomes.sound, fun _ => chain, Bounds.cover_nil, by simp⟩
      cases interrupt with
      | propagate completion => exact completed becomes.sound chain covered resultLater
      | fault fault =>
          cases fault with
          | error code => exact completed becomes.sound chain Bounds.cover_nil resultLater
          | endlessText => exact broken _
          | cellInUse => exact broken _
          | missingPart => exact broken _

end Turns

/-- A turn. -/
theorem advance
    (natives : setting.registry.KeepsHeaps setting.tree)
    (sound : machine.Sound setting.tree) :
    (machine.advance setting).machine.Sound setting.tree := by
  obtain ⟨memory, frames, incoming, outcome, steps⟩ := machine
  cases frames with
  | nil => exact sound.finish rfl
  | cons frame below =>
      rw [advance_cons, readyMemory]
      split
      · exact sound.closeUnused.played natives
      · exact sound.played natives

/-- A call of `run`. -/
theorem run
    (natives : setting.registry.KeepsHeaps setting.tree)
    (sound : machine.Sound setting.tree)
    (fuel : Nat)
    (budget : Option Nat) :
    (machine.run setting fuel budget).2.Sound setting.tree :=
  run_keeps (fun _ sound => sound.advance natives) (fun _ sound => sound.abort) sound fuel budget

end Sound

/-! ## The start of a run -/

/-- A machine at its start is sound if the program has the entry function. -/
theorem sound_start
    {entry : FuncId}
    (known : (setting.tree.function? entry).isSome)
    (host : Host) :
    (start setting entry host).Sound setting.tree := by
  have empty : Heap.Sound setting.tree {} := ⟨by simp, by simp, by simp⟩
  obtain ⟨becomes, within, sizes⟩ := empty.addClassStatics setting.tree.classes.toList
  refine ⟨⟨becomes.sound, within, sizes, ?_⟩, fun _ => .root ⟨?_, ?_⟩ rfl known rfl, ?_, ?_⟩
  · intro activation member
    obtain rfl := Array.mem_singleton.mp member
    exact ⟨by simp [Activation.refs, Activation.bare], by simp [Activation.bare]⟩
  · exact fun last _ => UInt32.zero_le
  · simp [Frame.enter, Frame.refs]
  · exact Bounds.cover_nil
  · simp [start]

end Machine

end BotScript
