import BotScript.Proofs.LockstepMachine

namespace BotScript

/-!
# What a restored snapshot is

A snapshot of a sound machine is accepted.  What comes back lies in the machine
that was saved: every part is moved to the position at which its number was
given out, and everything that was not saved is left behind.  This is so as long
as the numbers are faithful, that is, as there are enough of them for all parts;
whether a number is in range does not depend on it.
-/

open Restored (Bounds)

/--
A record is accepted, and if numbers are faithful, what comes back is the
original once it is moved.
-/
def Restored.Recovers
    {α β : Type} (faithful : Prop) (rename : α → β) (original : β) (restored : Restored α) :
    Prop :=
  ∃ recovered, restored = .ok recovered ∧ (faithful → rename recovered = original)

/--
Each part that is listed has a number below the bound for its kind.  If numbers
are faithful, it lies where the relocation moves the part of that number.
-/
structure Relocation.Naming
    (shift : Relocation) (number : HeapRef → UInt32) (bounds : Bounds)
    (listed : HeapRef → Prop) (faithful : Prop) : Prop where
  cell : ∀ id : CellId, listed (.cell id) →
    (number (.cell id)).toNat < bounds.cells ∧
      (faithful → shift.cell ⟨(number (.cell id)).toNat⟩ = id)
  array : ∀ id : ArrayId, listed (.array id) →
    (number (.array id)).toNat < bounds.arrays ∧
      (faithful → shift.array ⟨(number (.array id)).toNat⟩ = id)
  object : ∀ id : ObjectId, listed (.object id) →
    (number (.object id)).toNat < bounds.objects ∧
      (faithful → shift.object ⟨(number (.object id)).toNat⟩ = id)

namespace Restored.Recovers

variable {α β γ δ : Type} {faithful : Prop} {rename : α → β} {original : β}
  {restored : Restored α}

/-- A result of which something is made. -/
theorem map
    (recovers : Recovers faithful rename original restored)
    {make : α → γ}
    {also : γ → δ}
    {result : δ}
    (same : ∀ recovered, rename recovered = original → also (make recovered) = result) :
    Recovers faithful also result (restored.map make) := by
  obtain ⟨recovered, rfl, renamed⟩ := recovers
  exact ⟨make recovered, rfl, fun holds => same recovered (renamed holds)⟩

/-- A result that is used further. -/
theorem bind
    (recovers : Recovers faithful rename original restored)
    {next : α → Restored γ}
    {also : γ → δ}
    {result : δ}
    (continued : ∀ recovered, (faithful → rename recovered = original) →
      Recovers faithful also result (next recovered)) :
    Recovers faithful also result (restored >>= next) := by
  obtain ⟨recovered, rfl, renamed⟩ := recovers
  exact continued recovered renamed

/-- Several records that are all accepted. -/
theorem mapM
    {records : List γ}
    {restore : γ → Restored α}
    {originals : γ → β}
    (all : ∀ record ∈ records, Recovers faithful rename (originals record) (restore record)) :
    Recovers faithful (List.map rename) (records.map originals) (records.mapM restore) := by
  induction records with
  | nil => exact ⟨[], rfl, fun _ => rfl⟩
  | cons record rest inductionHypothesis =>
      rw [List.mapM_cons]
      refine (all record (List.mem_cons_self ..)).bind fun first firstRenamed => ?_
      refine (inductionHypothesis fun other member =>
        all other (List.mem_cons_of_mem _ member)).bind fun others othersRenamed => ?_
      refine ⟨first :: others, rfl, fun holds => ?_⟩
      rw [List.map_cons, firstRenamed holds, othersRenamed holds, List.map_cons]

/-- A list of parts, from what is recorded of each of them. -/
theorem mapM_map
    {originals : List β}
    {record : β → γ}
    {restore : γ → Restored α}
    (all : ∀ original ∈ originals,
      Recovers faithful rename original (restore (record original))) :
    Recovers faithful (List.map rename) originals ((originals.map record).mapM restore) := by
  have recovers := @mapM α β β faithful rename originals (restore ∘ record) id all
  rwa [List.map_id, ← List.mapM_map] at recovers

end Restored.Recovers

/-- A demand that is met. -/
theorem Restored.demand_ok
    {condition : Bool}
    {defect : SnapshotDefect}
    (met : condition = true) :
    Restored.demand condition defect = .ok () :=
  if_pos met

/-- As many contents come back as there are records. -/
theorem Restored.length_of_mapM
    {α γ : Type}
    {records : List γ}
    {restore : γ → Restored α}
    {contents : List α}
    (restored : records.mapM restore = .ok contents) :
    contents.length = records.length := by
  induction records generalizing contents with
  | nil =>
      cases restored
      rfl
  | cons record rest inductionHypothesis =>
      rw [List.mapM_cons] at restored
      cases first : restore record with
      | error defect =>
          rw [first] at restored
          cases restored
      | ok content =>
          cases others : rest.mapM restore with
          | error defect =>
              rw [first, others] at restored
              cases restored
          | ok behind =>
              rw [first, others] at restored
              cases restored
              rw [List.length_cons, List.length_cons, inductionHypothesis others]

/-- The last frame of a chain comes back on top of the one before it. -/
theorem Restored.Bounds.frames_append
    {bounds : Bounds}
    {tree : Tree}
    {activations : Nat}
    {parent : Option Node}
    (records : List FrameRecord)
    (record : FrameRecord) :
    bounds.frames tree activations parent (records ++ [record]) = (do
      let others ← bounds.frames tree activations parent records
      let frame ←
        bounds.frame tree activations ((records.getLast?.map FrameRecord.node).or parent) record
      pure (others ++ [frame])) := by
  induction records generalizing parent with
  | nil => rfl
  | cons first rest inductionHypothesis =>
      have last :
          ((first :: rest).getLast?.map FrameRecord.node).or parent =
            (rest.getLast?.map FrameRecord.node).or (some first.node) := by
        cases rest with
        | nil => rfl
        | cons second others =>
            rw [List.getLast?_cons_cons]
            cases found : (second :: others).getLast? with
            | none => simp at found
            | some final => rfl
      rw [last, List.cons_append, Bounds.frames, Bounds.frames, inductionHypothesis]
      simp

namespace Relocation.Naming

open Restored (Recovers)

variable {shift : Relocation} {number : HeapRef → UInt32} {bounds : Bounds}
  {listed : HeapRef → Prop} {faithful : Prop}
  (naming : shift.Naming number bounds listed faithful)

include naming

/-- A cell. -/
theorem cellOf
    {id : CellId}
    (member : listed (.cell id)) :
    Recovers faithful shift.cell id (bounds.cell (number (.cell id))) := by
  obtain ⟨inside, moved⟩ := naming.cell id member
  refine ⟨_, ?_, moved⟩
  simp only [Bounds.cell, Restored.demand_ok (decide_eq_true inside)]
  rfl

/-- An instance that something refers to. -/
theorem objectOf
    {id : ObjectId}
    (member : listed (.object id)) :
    Recovers faithful shift.object id (bounds.object (number (.object id))) := by
  obtain ⟨inside, moved⟩ := naming.object id member
  refine ⟨_, ?_, moved⟩
  simp only [Bounds.object, Restored.demand_ok (decide_eq_true inside)]
  rfl

/-- Some cells. -/
theorem cellArray
    {ids : Array CellId}
    (all : ∀ id ∈ ids, listed (.cell id)) :
    Recovers faithful (Array.map shift.cell) ids
      (bounds.cellArray (ids.toList.map fun id => number (.cell id))) := by
  have inside :
      ((ids.toList.map fun id => number (.cell id)).all
        fun number => decide (number.toNat < bounds.cells)) = true := by
    simp only [List.all_eq_true, List.mem_map, decide_eq_true_eq]
    rintro _ ⟨id, member, rfl⟩
    exact (naming.cell id (all id (by simpa using member))).1
  refine ⟨((ids.toList.map fun id => number (.cell id)).map fun number =>
    (⟨number.toNat⟩ : CellId)).toArray, ?_, fun holds => ?_⟩
  · simp only [Bounds.cellArray, Restored.demand_ok inside]
    rfl
  · refine Array.toList_inj.mp ?_
    simp only [Array.toList_map, List.map_map]
    refine (List.map_congr_left fun id member => ?_).trans (List.map_id _)
    exact (naming.cell id (all id (by simpa using member))).2 holds

/-- A value. -/
theorem value
    {content : Value}
    (all : ∀ ref ∈ content.refs, listed ref) :
    Recovers faithful shift.value content (bounds.value (.ofValue number content)) := by
  cases content with
  | array id =>
      obtain ⟨inside, moved⟩ := naming.array id (all _ (List.mem_singleton_self _))
      refine ⟨.array ⟨(number (.array id)).toNat⟩, ?_, fun holds => by simp [moved holds]⟩
      simp only [SavedValue.ofValue, Bounds.value, Restored.demand_ok (decide_eq_true inside)]
      rfl
  | object id =>
      have object := naming.objectOf (all _ (List.mem_singleton_self _))
      exact object.map fun recovered renamed => by rw [Relocation.value_object, renamed]
  | _ => exact ⟨_, rfl, fun _ => rfl⟩

/-- A completion. -/
theorem completion
    {content : Completion}
    (all : ∀ ref ∈ content.refs, listed ref) :
    Recovers faithful shift.completion content (bounds.completion (.ofCompletion number content)) := by
  cases content with
  | value held =>
      exact (naming.value all).map fun recovered renamed => by
        rw [Relocation.completion_value, renamed]
  | returned held =>
      exact (naming.value all).map fun recovered renamed => by
        rw [Relocation.completion_returned, renamed]
  | place cell =>
      exact (naming.cellOf (all _ (List.mem_singleton_self _))).map fun recovered renamed => by
        rw [Relocation.completion_place, renamed]
  | _ => exact ⟨_, rfl, fun _ => rfl⟩

/-- A frame at a step of its node, on top of a frame that can push it. -/
theorem frame
    {tree : Tree}
    {activations : Nat}
    {parent : Option Node}
    {content : Frame}
    (all : ∀ ref ∈ content.refs, listed ref)
    (pushes : ∀ node, parent = some node → tree.canPush node content.node = true)
    (known : (content.node.lastState? tree).isSome)
    (state : content.WithinStates tree)
    (act : content.act.toNat < activations) :
    Recovers faithful shift.frame content
      (bounds.frame tree activations parent (.ofFrame number content)) := by
  obtain ⟨last, found⟩ := Option.isSome_iff_exists.mp known
  simp only [Frame.refs, List.mem_append, List.mem_flatMap, List.mem_map, Option.mem_toList] at all
  have values :
      Recovers faithful (List.map shift.value) content.values
        ((content.values.map (.ofValue number)).mapM bounds.value) :=
    Recovers.mapM_map fun held member => naming.value fun ref refMember =>
      all ref (.inl (.inl ⟨held, member, refMember⟩))
  have place :
      Recovers faithful (Option.map shift.cell) content.place
        (Restored.optional bounds.cell (content.place.map fun id => number (.cell id))) := by
    cases held : content.place with
    | none => exact ⟨none, rfl, fun _ => rfl⟩
    | some id =>
        have cell := naming.cellOf (all _ (.inl (.inr ⟨id, held, rfl⟩)))
        exact cell.map fun recovered renamed => congrArg some renamed
  have pending :
      Recovers faithful (Option.map shift.completion) content.pending
        (Restored.optional bounds.completion (content.pending.map (.ofCompletion number))) := by
    cases held : content.pending with
    | none => exact ⟨none, rfl, fun _ => rfl⟩
    | some completion =>
        have recovers := naming.completion fun ref member =>
          all ref (.inr ⟨completion, held, member⟩)
        exact recovers.map fun recovered renamed => congrArg some renamed
  have rest :
      Recovers faithful shift.frame content (do
        let last ← Restored.require .frameNode (content.node.lastState? tree)
        Restored.demand (content.state ≤ last) .frameState
        Restored.demand (content.act.toNat < activations) .frameActivation
        pure
          { node := content.node
            state := content.state
            cursor := content.cursor
            aux := content.aux
            values := ← (content.values.map (.ofValue number)).mapM bounds.value
            place := ←
              Restored.optional bounds.cell (content.place.map fun id => number (.cell id))
            pending := ←
              Restored.optional bounds.completion (content.pending.map (.ofCompletion number))
            act := content.act }) := by
    rw [found, Restored.demand_ok (decide_eq_true act)]
    change Recovers _ _ _ (Restored.demand (decide (content.state ≤ last)) _ >>= _)
    rw [Restored.demand_ok (decide_eq_true (state last found))]
    refine values.bind fun heldValues valuesMoved => ?_
    refine place.bind fun heldPlace placeMoved => ?_
    refine pending.bind fun heldPending pendingMoved => ?_
    refine ⟨_, rfl, fun holds => ?_⟩
    simp only [Relocation.frame, valuesMoved holds, placeMoved holds, pendingMoved holds]
  unfold Bounds.frame
  cases parent with
  | none => exact rest
  | some node =>
      change Recovers _ _ _ (Restored.demand (tree.canPush node content.node) _ >>= _)
      rw [Restored.demand_ok (pushes node rfl)]
      exact rest

/-- The frames of a chain, root first, when the innermost one is at a step that is known. -/
theorem frames
    {tree : Tree}
    {present : Bounds}
    {height activations : Nat}
    {chain : List Frame}
    (isChain : Chain tree present height chain)
    (known : ∀ top, chain.head? = some top → (top.node.lastState? tree).isSome)
    (all : ∀ frame ∈ chain, ∀ ref ∈ frame.refs, listed ref)
    (acts : ∀ frame ∈ chain, frame.act.toNat < activations) :
    Recovers faithful (List.map shift.frame) chain.reverse
      (bounds.frames tree activations none (chain.reverse.map (.ofFrame number))) := by
  have atop
      {frame parent : Frame}
      {below : List Frame}
      (recovers :
        Recovers faithful (List.map shift.frame) (parent :: below).reverse
          (bounds.frames tree activations none ((parent :: below).reverse.map (.ofFrame number))))
      (pushes : tree.canPush parent.node frame.node = true)
      (state : frame.WithinStates tree)
      (frameKnown : (frame.node.lastState? tree).isSome)
      (frameAll : ∀ ref ∈ frame.refs, listed ref)
      (act : frame.act.toNat < activations) :
      Recovers faithful (List.map shift.frame) (frame :: parent :: below).reverse
        (bounds.frames tree activations none
          ((frame :: parent :: below).reverse.map (.ofFrame number))) := by
    rw [List.reverse_cons, List.map_append, List.map_singleton, Bounds.frames_append]
    refine recovers.bind fun others othersMoved => ?_
    have parentNode :
        ((((parent :: below).reverse.map (FrameRecord.ofFrame number)).getLast?.map
          FrameRecord.node).or none) = some parent.node := by
      simp [FrameRecord.ofFrame]
    rw [parentNode]
    refine (naming.frame frameAll (fun node same => ?_) frameKnown state act).bind
      fun top topMoved => ⟨others ++ [top], rfl, fun holds => by
        simp [othersMoved holds, topMoved holds]⟩
    cases same
    exact pushes
  induction isChain with
  | root sound isRoot _ _ =>
      refine (naming.frame (all _ (List.mem_singleton_self _)) (by simp) (known _ rfl) sound.state
        (acts _ (List.mem_singleton_self _))).bind fun root rootMoved => ?_
      exact ⟨[root], rfl, fun holds => by simp [rootMoved holds]⟩
  | part sound pushes _ _ _ inductionHypothesis =>
      refine atop (inductionHypothesis ?_
        (fun other member => all other (List.mem_cons_of_mem _ member))
        (fun other member => acts other (List.mem_cons_of_mem _ member)))
        pushes.pushes sound.state (known _ rfl) (all _ (List.mem_cons_self ..))
        (acts _ (List.mem_cons_self ..))
      rintro _ ⟨⟩
      exact pushes.known
  | owner sound pushes _ _ _ inductionHypothesis =>
      refine atop (inductionHypothesis ?_
        (fun other member => all other (List.mem_cons_of_mem _ member))
        (fun other member => acts other (List.mem_cons_of_mem _ member)))
        pushes.pushes sound.state (known _ rfl) (all _ (List.mem_cons_self ..))
        (acts _ (List.mem_cons_self ..))
      rintro _ ⟨⟩
      exact pushes.known

/-- An activation. -/
theorem activationOf
    {tree : Tree}
    {present : Bounds}
    {content : Activation}
    (sound : content.Sound tree present)
    (all : ∀ ref ∈ content.refs, listed ref) :
    Recovers faithful shift.activation content
      (bounds.activation tree
        ⟨content.function, content.this.map fun id => number (.object id),
          content.locals.toList.map fun id => number (.cell id)⟩) := by
  simp only [Activation.refs, List.mem_append, List.mem_map, Option.mem_toList,
    Array.mem_toList_iff] at all
  have this :
      Recovers faithful (Option.map shift.object) content.this
        (Restored.optional bounds.object (content.this.map fun id => number (.object id))) := by
    cases held : content.this with
    | none => exact ⟨none, rfl, fun _ => rfl⟩
    | some id =>
        have object := naming.objectOf (all _ (.inl ⟨id, held, rfl⟩))
        exact object.map fun recovered renamed => congrArg some renamed
  have locals := naming.cellArray fun id member => all _ (.inr ⟨id, member, rfl⟩)
  have rest :
      Recovers faithful shift.activation content (do
        pure
          { function := content.function
            this := ← Restored.optional bounds.object
              (content.this.map fun id => number (.object id))
            locals := ← bounds.cellArray (content.locals.toList.map fun id => number (.cell id)) }) := by
    refine this.bind fun heldThis thisMoved => ?_
    refine locals.bind fun heldLocals localsMoved => ?_
    refine ⟨_, rfl, fun holds => ?_⟩
    simp only [Relocation.activation, thisMoved holds, localsMoved holds]
  unfold Bounds.activation
  cases named : content.function with
  | none =>
      rw [named] at rest
      exact rest
  | some id =>
      obtain ⟨function, found, count⟩ := sound.locals id named
      rw [named] at rest
      dsimp only
      rw [found]
      change Recovers _ _ _ (Restored.demand _ _ >>= _)
      rw [Restored.demand_ok (by simp [count])]
      exact rest

/-- The contents of a cell. -/
theorem content
    {cell : Cell}
    (all : ∀ ref ∈ cell.value.refs, listed ref) :
    Recovers faithful shift.content cell (do
      pure ⟨cell.ty, ← bounds.value (.ofValue number cell.value), cell.state⟩) :=
  (naming.value all).bind fun _ moved => ⟨_, rfl, fun holds => by
    simp only [Relocation.content, moved holds]⟩

/-- An array. -/
theorem elements
    {present : Bounds}
    {array : ArrayData}
    (sound : array.Sound present)
    (all : ∀ id ∈ array.items, listed (.cell id)) :
    Recovers faithful shift.elements array
      (bounds.arrayData
        ⟨array.element, array.limits, array.items.toList.map fun id => number (.cell id)⟩) := by
  unfold Bounds.arrayData
  rw [Restored.demand_ok (by simpa using sound.size)]
  exact (naming.cellArray all).bind fun _ moved =>
    ⟨_, rfl, fun holds => by simp only [Relocation.elements, moved holds]⟩

/-- An instance without an open file. -/
theorem fields
    {tree : Tree}
    {present : Bounds}
    {object : Instance}
    (sound : object.Sound tree present)
    (unopened : object.openFile = none)
    (all : ∀ id ∈ object.fields, listed (.cell id)) :
    Recovers faithful shift.fields object
      (bounds.instance? tree
        ⟨object.layout.id, object.fields.toList.map fun id => number (.cell id)⟩) := by
  unfold Bounds.instance?
  rw [sound.layout]
  change Recovers _ _ _ (Restored.demand _ _ >>= _)
  rw [Restored.demand_ok (by simp [sound.count])]
  exact (naming.cellArray all).bind fun _ moved =>
    ⟨_, rfl, fun holds => by simp only [Relocation.fields, moved holds, ← unopened]⟩

end Relocation.Naming

end BotScript
