import BotScript.Proofs.NormalFrames
import BotScript.Proofs.SoundMachine
import BotScript.Proofs.SpelledProgram
import BotScript.Snapshot.Restore
import BotScript.Snapshot.Save

namespace BotScript

/-!
# Machines whose cells are normal

The cells of the machine of an accepted program are normal at its start, and stay
normal over turns, slices, and snapshots that are saved and restored.
-/

/-- To close the files of unused instances changes no cell. -/
theorem World.cells_closeUnused
    (world : World)
    (roots : List HeapRef) :
    (world.closeUnused roots).heap.cells = world.heap.cells := by
  have closed (world : World) (id : ObjectId) :
      (world.closeFile id).heap.cells = world.heap.cells := by
    unfold World.closeFile
    dsimp only
    split <;> rfl
  have folded (unused : List Nat) (world : World) :
      (unused.foldl (fun world index => world.closeFile ⟨index⟩) world).heap.cells =
        world.heap.cells := by
    induction unused generalizing world with
    | nil => rfl
    | cons index unused inductionHypothesis =>
        exact (inductionHypothesis _).trans (closed world ⟨index⟩)
  unfold World.closeUnused
  dsimp only
  split
  · rfl
  · exact folded _ world

namespace Machine

/-- The cells and the frames of a machine are normal. -/
structure Normal (tree : Tree) (machine : Machine) : Prop where
  heap : machine.memory.world.heap.Normal
  frames : ∀ frame ∈ machine.frames, frame.Normal tree

/--
The states of a program: it is started, it takes turns, and between them it can be
given up, the host changes and closes unused files, and a saved state is restored.
-/
inductive Attained (setting : Setting) : Machine → Prop where
  | started
      (entry : FuncId)
      (host : Host) :
      Attained setting (start setting entry host)
  | advanced
      {machine : Machine} :
      Attained setting machine →
      Attained setting (machine.advance setting).machine
  | aborted
      {machine : Machine} :
      Attained setting machine →
      Attained setting (machine.abort setting)
  | withHost
      {machine : Machine}
      (host : Host) :
      Attained setting machine →
      Attained setting (machine.withHost host)
  | closeUnused
      {machine : Machine} :
      Attained setting machine →
      Attained setting machine.closeUnused
  | restored
      {machine restored : Machine}
      {snapshot : Snapshot}
      {signature expected : UInt32}
      (host : Host) :
      Attained setting machine →
      machine.save setting.tree signature = .ok snapshot →
      restore setting.tree snapshot expected host = .ok restored →
      Attained setting restored

variable {setting : Setting} {machine : Machine}

/-! ## Slices -/

/-- A slice leads to a state of the program. -/
theorem Attained.runFor
    (attained : machine.Attained setting)
    (fuel : Nat)
    (budget : Option Nat) :
    (machine.runFor setting fuel budget).2.Attained setting :=
  runFor_keeps (fun _ attained => attained.advanced) (fun _ attained => attained.aborted) attained
    fuel budget

/-! ## Turns -/

namespace Normal

/-- A machine is normal at its start. -/
theorem ofStart
    (entry : FuncId)
    (host : Host) :
    (start setting entry host).Normal setting.tree where
  heap := Heap.Normal.addClassStatics (fun cell isCell => by simp at isCell) _
  frames := List.forall_mem_singleton.mpr (Frame.enter_normal rfl)

/-- Unused files are closed. -/
theorem closeUnused
    (normal : machine.Normal setting.tree) :
    machine.closeUnused.Normal setting.tree :=
  ⟨normal.heap.ofCells (World.cells_closeUnused _ _), normal.frames⟩

/-- A turn keeps a machine normal. -/
theorem advance
    (writes : setting.tree.WritesPlaces)
    (natives : setting.registry.WritesCells)
    (normal : machine.Normal setting.tree) :
    (machine.advance setting).machine.Normal setting.tree := by
  obtain ⟨memory, frames, incoming, outcome, steps⟩ := machine
  cases frames with
  | nil => exact ⟨normal.heap, List.forall_mem_nil _⟩
  | cons frame below =>
      obtain ⟨top, rest⟩ := List.forall_mem_cons.mp normal.frames
      rw [advance_cons]
      have ready :
          (readyMemory setting ⟨memory, frame :: below, incoming, outcome, steps⟩
            frame).world.heap.Normal := by
        unfold readyMemory
        split
        · exact normal.closeUnused.heap
        · exact normal.heap
      have moves : Step.Moves setting.tree (Step.ofFrame setting frame incoming) :=
        .ofFrame writes natives top
      specialize moves _ ready
      unfold Frame.play
      revert moves
      generalize (Step.ofFrame setting frame incoming).run.run _ = taken
      obtain ⟨result, after⟩ := taken
      rintro ⟨afterNormal, isMove⟩
      have completed : (memoryAfter frame after).world.heap.Normal := by
        obtain ⟨world, activations, statics⟩ := after
        unfold memoryAfter
        dsimp only
        split <;> exact afterNormal
      cases result with
      | ok move =>
          have movesOn := isMove move rfl
          cases move with
          | push stay child =>
              exact ⟨afterNormal, List.forall_mem_cons.mpr
                ⟨movesOn.2, List.forall_mem_cons.mpr ⟨movesOn.1, rest⟩⟩⟩
          | tick stay => exact ⟨afterNormal, List.forall_mem_cons.mpr ⟨movesOn, rest⟩⟩
          | complete completion => exact ⟨completed, rest⟩
      | error interrupt =>
          cases interrupt with
          | propagate completion => exact ⟨completed, rest⟩
          | fault fault =>
              cases fault with
              | error code => exact ⟨completed, rest⟩
              | _ => exact ⟨afterNormal, List.forall_mem_cons.mpr ⟨top, rest⟩⟩

end Normal

end Machine

/-! ## Snapshots -/

/-- What a frame has in common with the frame that is restored in its place. -/
def Frame.shape (frame : Frame) : Node × UInt32 × UInt32 :=
  (frame.node, frame.state, frame.act)

namespace Restored

variable {α β : Type}

/-- Every restored part comes from a record. -/
theorem mapM_ok
    {restore : α → Restored β}
    {records : List α}
    {results : List β}
    (restores : records.mapM restore = .ok results) :
    ∀ result ∈ results, ∃ record ∈ records, restore record = .ok result := by
  induction records generalizing results with
  | nil =>
      cases restores
      exact List.forall_mem_nil _
  | cons record records inductionHypothesis =>
      rw [List.mapM_cons] at restores
      obtain ⟨first, isFirst, restores⟩ := bind_ok restores
      obtain ⟨others, areOthers, restores⟩ := bind_ok restores
      cases restores
      refine List.forall_mem_cons.mpr ⟨⟨record, List.mem_cons_self, isFirst⟩, fun result isOther => ?_⟩
      obtain ⟨other, isRecord, restored⟩ := inductionHypothesis areOthers result isOther
      exact ⟨other, List.mem_cons_of_mem record isRecord, restored⟩

namespace Bounds

variable {bounds : Bounds} {tree : Tree}

/-- A value that is saved and restored is one of the same types. -/
theorem value_holds
    {number : HeapRef → UInt32}
    {value restored : Value}
    {ty : Ty}
    (holds : ty.Holds value)
    (restores : bounds.value (.ofValue number value) = .ok restored) :
    ty.Holds restored := by
  cases value with
  | array id =>
      have isReference : ∀ other : Value, ty.Holds other := fun other => by
        cases ty <;> first | trivial | simp [Ty.Holds] at holds
      exact isReference restored
  | object id =>
      have isReference : ∀ other : Value, ty.Holds other := fun other => by
        cases ty <;> first | trivial | simp [Ty.Holds] at holds
      exact isReference restored
  | _ =>
      cases restores
      exact holds

/-- A restored frame stands where its record does, and its operands are restored. -/
theorem frame_ok
    {activations : Nat}
    {parent : Option Node}
    {record : FrameRecord}
    {frame : Frame}
    (restores : bounds.frame tree activations parent record = .ok frame) :
    frame.shape = (record.node, record.state, record.act) ∧
      record.values.mapM bounds.value = .ok frame.values := by
  have rest {frame : Frame} (restores : (do
      let last ← require .frameNode (record.node.lastState? tree)
      demand (record.state ≤ last) .frameState
      demand (record.act.toNat < activations) .frameActivation
      pure
        { node := record.node
          state := record.state
          cursor := record.cursor
          aux := record.aux
          values := ← record.values.mapM bounds.value
          place := ← optional bounds.cell record.place
          pending := ← optional bounds.completion record.pending
          act := record.act } : Restored Frame) = .ok frame) :
      frame.shape = (record.node, record.state, record.act) ∧
        record.values.mapM bounds.value = .ok frame.values := by
    obtain ⟨last, -, restores⟩ := bind_ok restores
    obtain ⟨_, -, restores⟩ := bind_ok restores
    obtain ⟨_, -, restores⟩ := bind_ok restores
    obtain ⟨values, areValues, restores⟩ := bind_ok restores
    obtain ⟨place, -, restores⟩ := bind_ok restores
    obtain ⟨pending, -, restores⟩ := bind_ok restores
    cases restores
    exact ⟨rfl, areValues⟩
  unfold Bounds.frame at restores
  cases parent with
  | none => exact rest restores
  | some parent =>
      obtain ⟨_, -, restores⟩ := bind_ok restores
      exact rest restores

/-- Every restored frame comes from a record. -/
theorem frames_ok
    {activations : Nat}
    {parent : Option Node}
    {records : List FrameRecord}
    {frames : List Frame}
    (restores : bounds.frames tree activations parent records = .ok frames) :
    ∀ frame ∈ frames, ∃ record ∈ records,
      frame.node = record.node ∧ record.values.mapM bounds.value = .ok frame.values := by
  induction records generalizing parent frames with
  | nil =>
      cases restores
      exact List.forall_mem_nil _
  | cons record records inductionHypothesis =>
      obtain ⟨first, isFirst, restores⟩ := bind_ok restores
      obtain ⟨others, areOthers, restores⟩ := bind_ok restores
      cases restores
      obtain ⟨shape, values⟩ := frame_ok isFirst
      refine List.forall_mem_cons.mpr
        ⟨⟨record, List.mem_cons_self, congrArg Prod.fst shape, values⟩, fun frame isOther => ?_⟩
      obtain ⟨other, isRecord, same⟩ := inductionHypothesis areOthers frame isOther
      exact ⟨other, List.mem_cons_of_mem record isRecord, same⟩

/-- The cells of a restored heap are those of the snapshot. -/
theorem heap_ok
    {snapshot : Snapshot}
    {heap : Heap}
    (restores : bounds.heap tree snapshot = .ok heap) :
    ∀ cell ∈ heap.cells, ∃ record ∈ snapshot.cells,
      cell.ty = record.ty ∧ cell.state = record.state ∧
        bounds.value record.value = .ok cell.value := by
  obtain ⟨objects, -, restores⟩ := bind_ok restores
  obtain ⟨arrays, -, restores⟩ := bind_ok restores
  obtain ⟨cells, areCells, restores⟩ := bind_ok restores
  cases restores
  intro cell isCell
  obtain ⟨record, isRecord, restores⟩ := mapM_ok areCells cell (by simpa using isCell)
  obtain ⟨value, isValue, restores⟩ := bind_ok restores
  cases restores
  exact ⟨record, isRecord, rfl, rfl, isValue⟩

end Bounds

end Restored

namespace Machine

open Spelled (mark name word)

variable {setting : Setting} {machine result : Machine}

/-- What a restored machine is made of. -/
theorem restore_ok
    {tree : Tree}
    {snapshot : Snapshot}
    {signature : UInt32}
    {host : Host}
    (restores : restore tree snapshot signature host = .ok result) :
    ∃ (bounds : Restored.Bounds) (activations : List Activation) (frames : List Frame),
      bounds.heap tree snapshot = .ok result.memory.world.heap ∧
        snapshot.activations.mapM (bounds.activation tree) = .ok activations ∧
          result.memory.activations = activations.toArray ∧
            bounds.frames tree activations.length none snapshot.frames = .ok frames ∧
              result.frames = frames.reverse ∧
                Restored.optional bounds.completion snapshot.incoming = .ok result.incoming ∧
                  result.outcome = .running ∧
                    ∃ entry, snapshot.frames.head?.map FrameRecord.node = some (.start entry) := by
  unfold restore at restores
  dsimp only at restores
  split at restores
  · cases restores
  split at restores
  on_goal 2 => cases restores
  next entry isRoot =>
  obtain ⟨_, -, restores⟩ := bind_ok restores
  split at restores
  · cases restores
  obtain ⟨heap, isHeap, restores⟩ := bind_ok restores
  obtain ⟨statics, -, restores⟩ := bind_ok restores
  obtain ⟨activations, areActivations, restores⟩ := bind_ok restores
  obtain ⟨frames, areFrames, restores⟩ := bind_ok restores
  obtain ⟨incoming, isIncoming, restores⟩ := bind_ok restores
  cases restores
  exact ⟨_, activations, frames, isHeap, areActivations, rfl, areFrames, rfl, isIncoming, rfl,
    entry, isRoot⟩

/-- A program that is saved leaves its record. -/
theorem save_ok
    {tree : Tree}
    {snapshot : Snapshot}
    {signature : UInt32}
    (saved : machine.save tree signature = .ok snapshot) :
    ∃ entry, snapshot = machine.record signature entry := by
  unfold save at saved
  split at saved
  · split at saved
    · cases saved
      exact ⟨_, rfl⟩
    · cases saved
  · cases saved

/-- A normal machine that is saved and restored is normal. -/
theorem Normal.restored
    {snapshot : Snapshot}
    {signature expected : UInt32}
    {host : Host}
    (normal : machine.Normal setting.tree)
    (saved : machine.save setting.tree signature = .ok snapshot)
    (restores : restore setting.tree snapshot expected host = .ok result) :
    result.Normal setting.tree := by
  obtain ⟨entry, rfl⟩ := save_ok saved
  obtain ⟨bounds, _, frames, isHeap, -, -, areFrames, sameFrames, -⟩ := restore_ok restores
  refine ⟨fun cell isCell => ?_, fun frame isFrame => ?_⟩
  · obtain ⟨record, isRecord, sameType, sameState, isValue⟩ :=
      Restored.Bounds.heap_ok isHeap cell isCell
    obtain ⟨id, -, rfl⟩ := List.mem_map.mp isRecord
    dsimp only at sameType sameState isValue
    unfold Cell.Normal
    rw [sameType, sameState]
    exact (normal.heap.cell id).imp_right fun holds => Restored.Bounds.value_holds holds isValue
  · rw [sameFrames] at isFrame
    obtain ⟨record, isRecord, sameNode, areValues⟩ :=
      Restored.Bounds.frames_ok areFrames frame (List.mem_reverse.mp isFrame)
    obtain ⟨original, isOriginal, rfl⟩ := List.mem_map.mp isRecord
    dsimp only [FrameRecord.ofFrame] at sameNode areValues
    have frameNormal := normal.frames original (List.mem_reverse.mp isOriginal)
    refine ⟨fun id isNode => frameNormal.place id (sameNode ▸ isNode), ?_⟩
    intro id demand isNode items isLiteral element isElement value isValue
    obtain ⟨saved, isSaved, restores⟩ := Restored.mapM_ok areValues value isValue
    obtain ⟨old, isOld, rfl⟩ := List.mem_map.mp isSaved
    exact Restored.Bounds.value_holds
      (frameNormal.items id demand (sameNode ▸ isNode) items isLiteral element isElement old isOld)
      restores

/-- The machine of an accepted program stays normal. -/
theorem Attained.normal
    (writes : setting.tree.WritesPlaces)
    (natives : setting.registry.WritesCells)
    (attained : machine.Attained setting) :
    machine.Normal setting.tree := by
  induction attained with
  | started entry host => exact .ofStart entry host
  | advanced _ inductionHypothesis => exact inductionHypothesis.advance writes natives
  | aborted _ inductionHypothesis => exact ⟨inductionHypothesis.heap, List.forall_mem_nil _⟩
  | withHost host _ inductionHypothesis =>
      exact ⟨inductionHypothesis.heap, inductionHypothesis.frames⟩
  | closeUnused _ inductionHypothesis => exact inductionHypothesis.closeUnused
  | restored host _ saved restores inductionHypothesis =>
      exact inductionHypothesis.restored saved restores

/--
In every state of an accepted program, wherever a cell is referred to: a cell of a
scalar type has no value yet, or one of its type that another store would not change.
-/
theorem attained_cell_normal
    {tokens : TokenList}
    (accepted : compile setting.registry tokens = .ok setting.tree)
    (natives : setting.registry.WritesCells)
    (attained : machine.Attained setting)
    (id : CellId) :
    (machine.memory.world.heap.cell id).Normal :=
  (attained.normal (compile_writesPlaces accepted) natives).heap.cell id

/-- A number that does not fit its variable, and an array that grows for one with a fraction. -/
def wrappedTokens : TokenList :=
  Spelled.program
    [ -- int main() { short s = 70000; int a[]; a[1] = 2.5; s++; return s; }
      mark .intKw, name "main", mark .openPar, mark .closePar, mark .openBlock,
      mark .shortKw, name "s", mark .assign, word .number "70000", mark .semicolon,
      mark .intKw, name "a", mark .openBracket, mark .closeBracket, mark .semicolon,
      name "a", mark .openBracket, word .number "1", mark .closeBracket, mark .assign,
      word .number "2.5", mark .semicolon,
      name "s", mark .increment, mark .semicolon,
      mark .returnKw, name "s", mark .semicolon, mark .closeBlock]

/-- The numbers are wrapped and truncated, also once the program is saved and restored. -/
theorem attained_cell_normal_wrapped :
    let setting := Spelled.setting wrappedTokens
    let machine := ((Spelled.started wrappedTokens ⟨0⟩).runFor setting 25 none).2
    (compile .standard wrappedTokens).isOk = true ∧
      setting.registry.WritesCells ∧
      ∃ snapshot result,
        machine.save setting.tree 0 = .ok snapshot ∧
          restore setting.tree snapshot 0 machine.host = .ok result ∧
          result.Attained setting ∧
          result.memory.world.heap.cells =
            #[⟨.short, .int 4464, .defined⟩, ⟨.array .int, .array ⟨0⟩, .defaulted⟩,
              ⟨.int, .int 0, .defaulted⟩, ⟨.int, .int 2, .defined⟩] ∧
          ∀ id, (result.memory.world.heap.cell id).Normal := by
  intro setting machine
  have accepted : (compile .standard wrappedTokens).isOk = true := by decide +kernel
  have cells :
      (machine.save setting.tree 0 >>= fun snapshot =>
          restore setting.tree snapshot 0 machine.host).toOption.map
        (fun result => result.memory.world.heap.cells) =
      some #[⟨.short, .int 4464, .defined⟩, ⟨.array .int, .array ⟨0⟩, .defaulted⟩,
        ⟨.int, .int 0, .defaulted⟩, ⟨.int, .int 2, .defined⟩] := by
    decide +kernel
  have attained : machine.Attained setting := (Attained.started _ _).runFor 25 none
  cases restored :
      machine.save setting.tree 0 >>= fun snapshot =>
        restore setting.tree snapshot 0 machine.host with
  | error error =>
      rw [restored] at cells
      cases cells
  | ok result =>
      rw [restored] at cells
      obtain ⟨snapshot, saved, restores⟩ := bind_ok restored
      have natives : setting.registry.WritesCells := Registry.standard_writesCells
      have attained := attained.restored _ saved restores
      exact ⟨accepted, natives, snapshot, result, saved, restores, attained,
        Option.some.inj cells,
        attained_cell_normal (Spelled.setting_accepted accepted) natives attained⟩

end Machine

end BotScript
