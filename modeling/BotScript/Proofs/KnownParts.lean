import BotScript.Proofs.LawfulSteps
import BotScript.Proofs.NormalMachine
import BotScript.Proofs.WellFormedTrees

namespace BotScript

/-!
# Parts that are known

A machine whose frames and activations name parts of a program misses none of them.  It is
such a machine at its start, and a snapshot is restored to one if the functions that its frames
name are functions of the program.
-/

/-! ## Pushed nodes -/

namespace Tree

variable {registry : Registry} {tree : Tree}

/-- A well-formed tree is closed. -/
theorem WellFormed.closed
    (wellFormed : tree.WellFormed registry) :
    tree.Closed where
  children id node found child isChild := by
    have inside := (Array.getElem?_eq_some_iff.mp found).1
    have before := (wellFormed.exprs id.index node found).1 child isChild
    simp [expr?, Nat.lt_trans before inside]
  owners id node found owner constructor arguments isKind := by
    have refers := (wellFormed.exprs id.index node found).2.1
    rw [isKind] at refers
    simp [class?, refers.1]
  expressions id node found child isChild := by
    simp [expr?, (wellFormed.stmts id.index node found).1 child isChild]
  statements id node found child isChild := by
    have inside := (Array.getElem?_eq_some_iff.mp found).1
    have before := (wellFormed.stmts id.index node found).2 child isChild
    simp [stmt?, Nat.lt_trans before inside]
  bodies id function found body isBody := by
    obtain ⟨other, isOther, inside, -⟩ :=
      (wellFormed.functions function (Array.mem_of_getElem? found)).body
    cases isOther.symm.trans isBody
    simp [stmt?, inside]
  initials entry isEntry field isField initial isInitial := by
    simp [expr?, ((wellFormed.classes entry isEntry).initials field isField initial isInitial).1]

end Tree

/-- A node that another one pushes is known, if functions are. -/
theorem Node.known_of_pushed
    {tree : Tree}
    {parent child : Node}
    (closed : tree.Closed)
    (pushes : tree.canPush parent child = true)
    (functions : ∀ id, child = .function id → (tree.function? id).isSome) :
    child.Known tree := by
  cases child with
  | start entry => exact trivial
  | function id => exact functions id rfl
  | statement id =>
      cases parent with
      | function parent =>
          cases found : tree.function? parent with
          | none => simp [Tree.canPush, found] at pushes
          | some entry =>
              exact closed.bodies parent entry found id
                (by simpa [Tree.canPush, found] using pushes)
      | statement parent =>
          cases found : tree.stmt? parent with
          | none => simp [Tree.canPush, found] at pushes
          | some node =>
              exact closed.statements parent node found id
                (by simpa [Tree.canPush, found] using pushes)
      | expression parent demand =>
          cases found : tree.expr? parent <;> simp [Tree.canPush, found] at pushes
      | _ => simp [Tree.canPush] at pushes
  | expression id demand =>
      cases parent with
      | start entry =>
          simp only [Tree.canPush, Array.any_eq_true, List.any_eq_true, beq_iff_eq] at pushes
          obtain ⟨index, inside, field, isField, own⟩ := pushes
          exact closed.initials _ (Array.getElem_mem inside) field (List.mem_append_right _ isField)
            id own
      | fieldSetup owner =>
          simp only [Tree.canPush, List.any_eq_true, beq_iff_eq] at pushes
          obtain ⟨pair, isPair, own⟩ := pushes
          obtain ⟨entry, isEntry, isField⟩ :=
            Tree.mem_classes_of_instanceField (List.mem_map_of_mem isPair)
          exact closed.initials entry isEntry pair.2 (List.mem_append_left _ isField) id own
      | statement parent =>
          cases found : tree.stmt? parent with
          | none => simp [Tree.canPush, found] at pushes
          | some node =>
              exact closed.expressions parent node found id
                (by simpa [Tree.canPush, found] using pushes)
      | expression parent demand =>
          obtain ⟨node, found, isChild⟩ := Tree.mem_children_of_canPush pushes
          exact closed.children parent node found id isChild
      | _ => simp [Tree.canPush] at pushes
  | fieldSetup owner =>
      cases parent with
      | expression parent demand =>
          cases found : tree.expr? parent with
          | none => simp [Tree.canPush, found] at pushes
          | some node =>
              have owners := closed.owners parent node found
              cases kind : node.kind with
              | new other constructor arguments =>
                  simp only [Tree.canPush, found, kind, beq_iff_eq] at pushes
                  exact pushes ▸ owners other constructor arguments kind
              | methodCall object slot target arguments =>
                  cases target <;> simp [Tree.canPush, found, kind] at pushes
              | _ => simp [Tree.canPush, found, kind] at pushes
      | _ => simp [Tree.canPush] at pushes

/-- What a frame pushes is known. -/
theorem Move.Descends.known
    {tree : Tree}
    {origin stay child : Frame}
    (closed : tree.Closed)
    (descends : Move.Descends tree origin (.push stay child)) :
    child.node.Known tree := by
  refine Node.known_of_pushed closed descends.bears.pushes fun id isFunction => ?_
  cases descends with
  | calls _ _ _ isThere =>
      cases isFunction
      exact isThere
  | _ => cases isFunction

/-! ## Machines -/

/-- The law that all parts of a program are there, wherever exceptions are reported. -/
def Step.Law.finding (setting : Setting) : Law :=
  ⟨setting, fun _ => True, False⟩

open Step (Law)

/-- The frames and activations of a machine name parts of a program, and none has been missed. -/
structure Machine.Known (setting : Setting) (machine : Machine) : Prop where
  memory : (Law.finding setting).Upholds machine.memory
  frames : ∀ frame ∈ machine.frames, frame.node.Known setting.tree
  outcome : machine.outcome ≠ .broken .missingPart

namespace Machine.Known

variable {setting : Setting} {machine : Machine}

/-- A machine at its start names only its entry function. -/
theorem ofStart
    (entry : FuncId)
    (host : Host) :
    (start setting entry host).Known setting where
  memory activation member := by
    obtain rfl := Array.mem_singleton.mp member
    intro id isId
    cases isId
  frames := List.forall_mem_singleton.mpr trivial
  outcome := by simp [start]

/-- A chain that is given up names nothing. -/
theorem abort
    (machine : Machine) :
    (machine.abort setting).Known setting where
  memory activation member := absurd member (Array.not_mem_empty activation)
  frames := List.forall_mem_nil _
  outcome := by simp [Machine.abort]

/-- Another state of the host. -/
theorem withHost
    (known : machine.Known setting)
    (host : Host) :
    (machine.withHost host).Known setting :=
  ⟨known.memory, known.frames, known.outcome⟩

/-- Activations of known functions are left when a frame is done. -/
theorem memoryAfter
    {memory : Memory}
    (known : (Law.finding setting).Upholds memory)
    (frame : Frame) :
    (Law.finding setting).Upholds (memoryAfter frame memory) := by
  obtain ⟨world, activations, statics⟩ := memory
  unfold Machine.memoryAfter
  dsimp only
  split
  · intro activation member
    rw [← Array.mem_toList_iff, Array.toList_shrink] at member
    exact known activation (by simpa using List.mem_of_mem_take member)
  · exact known

/-- A turn misses no part of the program. -/
theorem advance
    (natives : setting.registry.Plain)
    (closed : setting.tree.Closed)
    (known : machine.Known setting) :
    (machine.advance setting).machine.Known setting := by
  obtain ⟨memory, frames, incoming, outcome, steps⟩ := machine
  obtain ⟨memoryKnown, framesKnown, found⟩ := known
  cases frames with
  | nil =>
      refine ⟨memoryKnown, framesKnown, ?_⟩
      simp only [Machine.advance, Turn.machine, Machine.finish]
      split <;> exact Outcome.noConfusion
  | cons frame below =>
      obtain ⟨top, rest⟩ := List.forall_mem_cons.mp framesKnown
      rw [advance_cons]
      have ready :
          (Law.finding setting).Upholds
            (readyMemory setting ⟨memory, frame :: below, incoming, outcome, steps⟩ frame) := by
        unfold readyMemory
        split <;> exact memoryKnown
      have met : (Law.finding setting).Met := ⟨fun _ => trivial, .inr closed, .inr natives⟩
      have held (completion : Option Completion) : Held (Law.finding setting).places completion :=
        ⟨fun _ _ => trivial⟩
      have moving : Step.Moving (Law.finding setting) (Step.ofFrame setting frame incoming) :=
        .ofFrame (.inr top)
      have abides := moving.abides _ ready
      have descends := Step.Descends.ofFrame setting frame incoming
        (readyMemory setting ⟨memory, frame :: below, incoming, outcome, steps⟩ frame)
      unfold Frame.play
      revert abides descends
      generalize (Step.ofFrame setting frame incoming).run.run _ = taken
      intro abides descends
      cases abides with
      | @ok move after afterKnown =>
          cases move with
          | push stay child =>
              cases descends with
              | ok descends =>
                  have stays : stay.node.Known setting.tree := descends.bears.sameNode ▸ top
                  exact ⟨afterKnown, List.forall_mem_cons.mpr
                    ⟨descends.known closed, List.forall_mem_cons.mpr ⟨stays, rest⟩⟩, found⟩
          | tick stay =>
              cases descends with
              | ok descends =>
                  have stays : stay.node.Known setting.tree := descends.tick_sameNode ▸ top
                  exact ⟨afterKnown, List.forall_mem_cons.mpr ⟨stays, rest⟩, found⟩
          | complete completion => exact ⟨memoryAfter afterKnown frame, rest, found⟩
      | propagate afterKnown => exact ⟨memoryAfter afterKnown frame, rest, found⟩
      | @fault fault after afterKnown isFound =>
          cases fault with
          | error code => exact ⟨memoryAfter afterKnown frame, rest, found⟩
          | missingPart => exact (isFound rfl).elim
          | _ =>
              exact ⟨afterKnown, List.forall_mem_cons.mpr ⟨top, rest⟩,
                by simp [afterMove, Step.settled, Turn.machine]⟩

/-- A call of `run` misses no part of the program. -/
theorem run
    (natives : setting.registry.Plain)
    (closed : setting.tree.Closed)
    (known : machine.Known setting)
    (fuel : Nat)
    (budget : Option Nat) :
    (machine.run setting fuel budget).2.Known setting :=
  run_keeps (fun _ known => known.advance natives closed) (fun machine _ => abort machine) known
    fuel budget

end Machine.Known

/-! ## Restored machines -/

namespace Restored.Bounds

variable {bounds : Restored.Bounds} {tree : Tree}

/-- The node below a restored frame can push its node. -/
theorem frame_pushed
    {activations : Nat}
    {parent : Node}
    {record : FrameRecord}
    {frame : Frame}
    (restores : bounds.frame tree activations (some parent) record = .ok frame) :
    tree.canPush parent record.node = true := by
  obtain ⟨_, pushes, -⟩ := bind_ok restores
  unfold demand at pushes
  split at pushes
  · assumption
  · cases pushes

/-- A restored activation is that of a known function. -/
theorem activation_known
    {record : ActivationRecord}
    {activation : Activation}
    {setting : Setting}
    (restores : bounds.activation setting.tree record = .ok activation) :
    (Law.finding setting).Admits activation := by
  have rest
      (restores : (do
        pure
          { function := record.function
            this := ← optional bounds.object record.this
            locals := ← bounds.cellArray record.locals } : Restored Activation) = .ok activation) :
      activation.function = record.function := by
    obtain ⟨this, -, restores⟩ := bind_ok restores
    obtain ⟨locals, -, restores⟩ := bind_ok restores
    cases restores
    rfl
  unfold Bounds.activation at restores
  cases isFunction : record.function with
  | none =>
      rw [isFunction] at restores rest
      intro id isId
      cases (rest restores).symm.trans isId
  | some function =>
      rw [isFunction] at restores rest
      obtain ⟨definition, isDefinition, restores⟩ := bind_ok restores
      obtain ⟨_, -, restores⟩ := bind_ok restores
      intro id isId
      cases (rest restores).symm.trans isId
      cases found : setting.tree.function? function with
      | none =>
          rw [found] at isDefinition
          cases isDefinition
      | some other => exact .inr (Option.isSome_of_eq_some found)

/-- Frames of a chain that begins at the root have known nodes if their functions are known. -/
theorem frames_known
    {activations : Nat}
    {parent : Option Node}
    {records : List FrameRecord}
    {frames : List Frame}
    (closed : tree.Closed)
    (restores : bounds.frames tree activations parent records = .ok frames)
    (rooted : parent = none → ∀ record ∈ records.head?, ∃ entry, record.node = .start entry)
    (functions :
      ∀ frame ∈ frames, ∀ id, frame.node = .function id → (tree.function? id).isSome) :
    ∀ frame ∈ frames, frame.node.Known tree := by
  induction records generalizing parent frames with
  | nil =>
      cases restores
      exact List.forall_mem_nil _
  | cons record records inductionHypothesis =>
      obtain ⟨first, isFirst, restores⟩ := bind_ok restores
      obtain ⟨others, areOthers, restores⟩ := bind_ok restores
      cases restores
      obtain ⟨firstFunction, otherFunctions⟩ := List.forall_mem_cons.mp functions
      have sameNode : first.node = record.node := congrArg Prod.fst (frame_ok isFirst).1
      refine List.forall_mem_cons.mpr
        ⟨?_, inductionHypothesis areOthers (by rintro ⟨⟩) otherFunctions⟩
      rw [sameNode] at firstFunction ⊢
      cases parent with
      | none =>
          obtain ⟨entry, isRoot⟩ := rooted rfl record rfl
          rw [isRoot]
          exact trivial
      | some parent =>
          exact Node.known_of_pushed closed (frame_pushed isFirst) firstFunction

end Restored.Bounds

namespace Machine

variable {setting : Setting} {machine result : Machine}

namespace Known

/--
A machine that is restored from any snapshot names parts of the program only, if the functions
that its frames name are functions of the program.
-/
theorem ofRestore
    {snapshot : Snapshot}
    {signature : UInt32}
    {host : Host}
    (closed : setting.tree.Closed)
    (restores : restore setting.tree snapshot signature host = .ok result)
    (functions :
      ∀ frame ∈ result.frames, ∀ id, frame.node = .function id →
        (setting.tree.function? id).isSome) :
    result.Known setting := by
  obtain ⟨bounds, activations, frames, -, areActivations, sameActivations, areFrames, sameFrames, -,
    running, entry, isRoot⟩ := restore_ok restores
  refine ⟨fun activation member => ?_, fun frame member => ?_, ?_⟩
  · rw [sameActivations] at member
    obtain ⟨record, -, isRestored⟩ :=
      Restored.mapM_ok areActivations activation (by simpa using member)
    exact Restored.Bounds.activation_known isRestored
  · rw [sameFrames] at member functions
    refine Restored.Bounds.frames_known closed areFrames (fun _ record isFirst => ⟨entry, ?_⟩)
      (fun other isOther => functions other (List.mem_reverse.mpr isOther)) frame
      (List.mem_reverse.mp member)
    rw [Option.mem_def.mp isFirst] at isRoot
    exact Option.some.inj isRoot
  · rw [running]
    exact Outcome.noConfusion

end Known

/-- A program that was compiled never misses a part of itself. -/
theorem Attained.known
    (natives : setting.registry.Plain)
    (closed : setting.tree.Closed)
    (attained : machine.Attained setting) :
    machine.Known setting := by
  induction attained with
  | started entry host => exact .ofStart entry host
  | advanced _ inductionHypothesis => exact inductionHypothesis.advance natives closed
  | aborted _ _ => exact .abort _
  | withHost host _ inductionHypothesis => exact inductionHypothesis.withHost host
  | closeUnused _ inductionHypothesis =>
      exact ⟨inductionHypothesis.memory, inductionHypothesis.frames, inductionHypothesis.outcome⟩
  | restored host _ saved restores inductionHypothesis =>
      refine .ofRestore closed restores fun frame isFrame id isFunction => ?_
      obtain ⟨entry, rfl⟩ := save_ok saved
      obtain ⟨bounds, _, frames, -, -, -, areFrames, sameFrames, -⟩ := restore_ok restores
      rw [sameFrames] at isFrame
      obtain ⟨record, isRecord, sameNode, -⟩ :=
        Restored.Bounds.frames_ok areFrames frame (List.mem_reverse.mp isFrame)
      obtain ⟨original, isOriginal, rfl⟩ := List.mem_map.mp isRecord
      have known := inductionHypothesis.frames original (List.mem_reverse.mp isOriginal)
      have sameFunction : original.node = .function id := sameNode.symm.trans isFunction
      rwa [sameFunction] at known

end Machine

/-! ## Compiled programs -/

/--
No step of a program that was compiled looks up a part that the program does not have, whatever
calls led to the machine.  Nor does a machine that is restored from any snapshot and run, if
every frame of a function is one of a function of the program.
-/
theorem compile_findsParts
    {registry : Registry}
    {source : String}
    (offers : registry.Closed)
    (natives : registry.Plain)
    (short : source.utf8ByteSize < UInt32.size) :
    ∀ setting : Setting,
      setting.registry = registry →
      compile registry (.ofSource registry.constants source) = .ok setting.tree →
      setting.tree.Fits →
        (∀ machine : Machine,
          machine.Attained setting → machine.outcome ≠ .broken .missingPart) ∧
        ∀ (snapshot : Snapshot) (signature : UInt32) (host : Host) (machine : Machine),
          Machine.restore setting.tree snapshot signature host = .ok machine →
          (∀ frame ∈ machine.frames, ∀ id, frame.node = .function id →
            (setting.tree.function? id).isSome) →
          ∀ (fuel : Nat) (budget : Option Nat),
            (machine.run setting fuel budget).2.outcome ≠ .broken .missingPart := by
  rintro setting rfl accepted fits
  have closed : setting.tree.Closed := (compile_wellFormed offers short accepted fits).closed
  refine ⟨fun machine attained => (attained.known natives closed).outcome, ?_⟩
  intro snapshot signature host machine restores functions fuel budget
  have known : machine.Known setting := .ofRestore closed restores functions
  exact (known.run natives closed fuel budget).outcome

end BotScript
