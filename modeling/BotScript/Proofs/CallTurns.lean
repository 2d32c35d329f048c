import BotScript.Proofs.CallStages
import BotScript.Proofs.PushedFrames

namespace BotScript

/-!
# Turns of calls

The frame of a site holds the values of its parts so far, and its place in the list of its
arguments tells which part is next.  So every turn of it is one of the steps that its stage allows.
-/

/-- To close the files of unused instances leaves as many instances. -/
theorem World.size_closeUnused
    (world : World)
    (roots : List HeapRef) :
    (world.closeUnused roots).heap.objects.size = world.heap.objects.size := by
  have closed (world : World) (id : ObjectId) :
      (world.closeFile id).heap.objects.size = world.heap.objects.size := by
    unfold World.closeFile
    dsimp only
    split
    · exact Array.size_setIfInBounds
    · rfl
  have folded (unused : List Nat) (world : World) :
      (unused.foldl (fun world index => world.closeFile ⟨index⟩) world).heap.objects.size =
        world.heap.objects.size := by
    induction unused generalizing world with
    | nil => rfl
    | cons index unused inductionHypothesis =>
        exact (inductionHypothesis _).trans (closed world ⟨index⟩)
  unfold World.closeUnused
  dsimp only
  split
  · rfl
  · exact folded _ world

namespace Machine

variable {setting : Setting} {machine next : Machine} {frame : Frame} {below : List Frame}

/-! ## Turns of frames -/

/-- Where a turn leads, when the step of the innermost frame has a result and leaves a memory. -/
def Reaches
    (tree : Tree) (frame : Frame) (below : List Frame) (after : Memory) (next : Machine) :
    Except Interrupt Move → Prop
  | .ok (.push stay child) =>
      next.frames = child :: stay :: below ∧ next.incoming = none ∧ next.memory = after
  | .ok (.tick stay) => next.frames = stay :: below ∧ next.incoming = none ∧ next.memory = after
  | .ok (.complete completion) | .error (.propagate completion) =>
      next.frames = below ∧ next.incoming = some completion ∧
        next.memory = memoryAfter frame after
  | .error (.fault (.error code)) =>
      next.frames = below ∧
        next.incoming = some (.thrown (.ofCode code (frame.node.span tree))) ∧
        next.memory = memoryAfter frame after
  | .error (.fault _) => False

/-- What happens to a machine, seen from the step of its innermost frame. -/
theorem Goes.turned
    (goes : Goes setting machine next)
    (frames : machine.frames = frame :: below) :
    ((∃ host, next = machine.withHost host) ∨ next = machine.closeUnused) ∨
      ∃ result after,
        Step.Results (readyMemory setting machine frame)
            (Step.ofFrame setting frame machine.incoming) result after ∧
          Reaches setting.tree frame below after next result := by
  have turned
      (turn : machine.advance setting = .moved next ∨ machine.advance setting = .counted next) :
      ∃ result after,
        Step.Results (readyMemory setting machine frame)
            (Step.ofFrame setting frame machine.incoming) result after ∧
          Reaches setting.tree frame below after next result := by
    obtain ⟨memory, _, incoming, outcome, steps⟩ := machine
    cases frames
    rw [advance_cons, Frame.play] at turn
    generalize readyMemory setting ⟨memory, frame :: below, incoming, outcome, steps⟩ frame =
      before at turn ⊢
    generalize taken : (Step.ofFrame setting frame incoming).run.run before = reached at turn
    obtain ⟨result, after⟩ := reached
    refine ⟨result, after, taken, ?_⟩
    have moves {other : Machine}
        (same : afterMove frame below outcome steps
          (Step.settled setting.tree frame result, after) = .moved other) :
        next = other := by
      rw [same] at turn
      simpa [eq_comm] using turn
    cases result with
    | ok move =>
        cases move with
        | push stay child =>
            rw [moves rfl]
            exact ⟨rfl, rfl, rfl⟩
        | tick stay =>
            obtain moved | counted := turn
            · cases moved
            · cases counted
              exact ⟨rfl, rfl, rfl⟩
        | complete completion =>
            rw [moves rfl]
            exact ⟨rfl, rfl, rfl⟩
    | error interrupt =>
        cases interrupt with
        | propagate completion =>
            rw [moves rfl]
            exact ⟨rfl, rfl, rfl⟩
        | fault fault =>
            cases fault with
            | error code =>
                rw [moves rfl]
                exact ⟨rfl, rfl, rfl⟩
            | _ =>
                obtain moved | counted := turn
                · cases moved
                · cases counted
  cases goes with
  | moved moved => exact .inr (turned (.inl moved))
  | counted counted => exact .inr (turned (.inr counted))
  | withHost host => exact .inl (.inl ⟨host, rfl⟩)
  | closeUnused => exact .inl (.inr rfl)

/-- A memory that is made ready for a frame has the same activations, and as many instances. -/
theorem readyMemory_same
    (setting : Setting)
    (machine : Machine)
    (frame : Frame) :
    (readyMemory setting machine frame).activations = machine.memory.activations ∧
      (readyMemory setting machine frame).world.heap.objects.size =
        machine.memory.world.heap.objects.size := by
  unfold readyMemory
  split
  · exact ⟨rfl, World.size_closeUnused _ _⟩
  · exact ⟨rfl, rfl⟩

/-- A frame that is done leaves no more activations, and the heap and the host as they are. -/
theorem memoryAfter_le
    (frame : Frame)
    (memory : Memory) :
    (memoryAfter frame memory).activations.size ≤ memory.activations.size ∧
      (memoryAfter frame memory).world = memory.world := by
  obtain ⟨world, activations, statics⟩ := memory
  unfold memoryAfter
  dsimp only
  split
  · simp
  · exact ⟨Nat.le_refl _, rfl⟩

/-- A step that enters nothing leaves the number of activations. -/
theorem Aligned.size_activations
    {result : Except Interrupt Move}
    {after : Memory}
    (aligned : machine.Aligned setting)
    (frames : machine.frames = frame :: below)
    (taken :
      Step.Results (readyMemory setting machine frame)
        (Step.ofFrame setting frame machine.incoming) result after)
    (part : ∀ stay child, result = .ok (.push stay child) → child.node.ownsActivation = false) :
    after.activations.size = machine.memory.activations.size := by
  have ready : (readyMemory setting machine frame).outlines = machine.memory.outlines := by
    rw [Memory.outlines, (readyMemory_same setting machine frame).1]
    rfl
  have obeyed := Step.Obeys.ofFrame setting frame machine.memory.outlines
    (aligned.takes frame below frames) (readyMemory setting machine frame) ready
  rw [← Memory.length_outlines, ← Memory.length_outlines]
  rw [taken] at obeyed
  cases obeyed with
  | pushOwner _ owns => exact absurd ((part _ _ rfl).symm.trans owns) Bool.false_ne_true
  | pushPart _ _ _ outlines => rw [outlines]
  | tick _ _ outlines => rw [outlines]
  | complete _ outlines => rw [outlines]
  | fault outlines => rw [outlines]
  | propagate outlines => rw [outlines]

end Machine

/-! ## Steps of sites -/

/-- The step of the frame of a site; the type and the demand are those of its expression. -/
def Site.step
    (setting : Setting) (frame : Frame) (ty : Ty) (demand : Demand)
    (incoming : Option Completion) :
    Site → Step Move
  | .call id arguments => Step.call setting frame id arguments ty demand incoming
  | .native id arguments => Step.nativeCall setting frame id arguments ty demand incoming
  | .method object slot target arguments =>
      Step.methodCall setting frame object slot target arguments ty demand incoming
  | .new owner constructor arguments =>
      Step.newInstance setting frame owner constructor arguments ty demand incoming
  | .fields owner => Step.fieldSetup setting frame owner incoming

/-- The call of the host that the step of the frame of a site makes, if it makes one. -/
def Site.hostCall
    (tree : Tree) (frame : Frame) (incoming : Option Completion) :
    Site → Step (Option HostCall)
  | .native id arguments => do
      match ← Step.collect frame arguments incoming with
      | (_, some _) => pure none
      | (frame, none) =>
          let types ← arguments.mapM (Step.typeOf tree)
          pure (some ⟨id, none, frame.values, types⟩)
  | .method _ _ (.native id) arguments =>
      if frame.state = 1 then do
        match ← Step.collect frame arguments incoming with
        | (_, some _) => pure none
        | (frame, none) =>
            let this ← Step.receiver frame.values.head?
            let types ← arguments.mapM (Step.typeOf tree)
            pure (some ⟨id, some this, frame.values.drop 1, types⟩)
      else pure none
  | .new _ (some (.native id)) arguments =>
      if frame.state = 1 then do
        Step.settle incoming
        let last ← Step.require .notRunning frame.values.getLast?
        let this ← Step.receiver (some last)
        let types ← arguments.mapM (Step.typeOf tree)
        pure (some ⟨id, some this, frame.values.dropLast, types⟩)
      else pure none
  | _ => pure none

/-- Whether the step of the frame of a site calls the host. -/
def Site.callsHost (frame : Frame) : Site → Bool
  | .native _ arguments => arguments.length ≤ frame.cursor.toNat
  | .method _ _ (.native _) arguments =>
      frame.state == 1 && arguments.length ≤ frame.cursor.toNat
  | .new _ (some (.native _)) _ => frame.state == 1
  | _ => false

section Sites

variable {setting : Setting} {frame : Frame} {incoming : Option Completion} {site : Site}

/-- The frame of a site makes the step of the site. -/
theorem Step.ofFrame_site
    (isSite : frame.node.site? setting.tree = some site)
    (incoming : Option Completion) :
    ∃ ty demand,
      Step.ofFrame setting frame incoming = site.step setting frame ty demand incoming := by
  cases isNode : frame.node with
  | expression id demand =>
      rw [isNode] at isSite
      obtain ⟨⟨kind, ty, span⟩, found, isKind⟩ := Option.bind_eq_some_iff.mp isSite
      refine ⟨ty, demand, ?_⟩
      unfold Step.ofFrame Step.expression
      rw [isNode]
      simp only [found]
      cases kind <;> cases isKind <;> rfl
  | fieldSetup owner =>
      rw [isNode] at isSite
      cases isSite
      unfold Step.ofFrame
      rw [isNode]
      exact ⟨.void, .value, rfl⟩
  | _ =>
      rw [isNode] at isSite
      cases isSite

/-- The step of the frame of a site makes the call of the site. -/
theorem Step.hostCallOf_site
    (isSite : frame.node.site? setting.tree = some site)
    (incoming : Option Completion) :
    Step.hostCallOf setting.tree frame incoming = site.hostCall setting.tree frame incoming := by
  cases isNode : frame.node with
  | expression id demand =>
      rw [isNode] at isSite
      obtain ⟨⟨kind, ty, span⟩, found, isKind⟩ := Option.bind_eq_some_iff.mp isSite
      unfold Step.hostCallOf
      rw [isNode]
      simp only [found]
      cases kind with
      | call function arguments =>
          cases isKind
          rfl
      | nativeCall native arguments =>
          cases isKind
          rfl
      | methodCall object slot target arguments =>
          cases isKind
          cases target with
          | user => rfl
          | native native =>
              simp only [Site.hostCall]
              by_cases begun : frame.state = 1
              · rw [if_pos begun, begun]
                rfl
              · rw [if_neg begun]
                simp [Step.part, begun]
      | new owner constructor arguments =>
          cases isKind
          rcases constructor with _ | _ | native
          · rfl
          · rfl
          · simp only [Site.hostCall]
            by_cases begun : frame.state = 1
            · rw [if_pos begun, begun]
              rfl
            · rw [if_neg begun]
              simp [Step.part, begun]
      | _ => cases isKind
  | fieldSetup owner =>
      rw [isNode] at isSite
      cases isSite
      unfold Step.hostCallOf
      rw [isNode]
      rfl
  | _ =>
      rw [isNode] at isSite
      cases isSite

/-- The frame of a site calls the host next if the site does. -/
theorem Frame.callsHost_site
    (isSite : frame.node.site? setting.tree = some site) :
    frame.callsHost setting.tree = site.callsHost frame := by
  unfold Frame.callsHost
  cases isNode : frame.node with
  | expression id demand =>
      rw [isNode] at isSite
      obtain ⟨⟨kind, ty, span⟩, found, isKind⟩ := Option.bind_eq_some_iff.mp isSite
      have isExpr : setting.tree.expr id = ⟨kind, ty, span⟩ := by
        unfold Tree.expr
        rw [found]
        rfl
      simp only [isExpr]
      cases kind with
      | methodCall object slot target arguments =>
          cases isKind
          cases target with
          | user => rfl
          | native => by_cases begun : frame.state = 1 <;> simp [Site.callsHost, begun]
      | new owner constructor arguments =>
          cases isKind
          rcases constructor with _ | _ | _
          · rfl
          · rfl
          · by_cases begun : frame.state = 1 <;> simp [Site.callsHost, begun]
      | call function arguments =>
          cases isKind
          rfl
      | nativeCall native arguments =>
          cases isKind
          rfl
      | _ => cases isKind
  | fieldSetup owner =>
      rw [isNode] at isSite
      cases isSite
      rfl
  | _ =>
      rw [isNode] at isSite
      cases isSite

end Sites

/-! ## Frames of sites -/

/-- The frame of a site that waits for a part holds the values of the parts in front of it. -/
def Site.Gathers (tree : Tree) (values : List Value) (frame : Frame) : Site → Prop
  | .call _ _ | .native _ _ | .new _ _ _ =>
      frame.state = 0 ∧ frame.cursor.toNat = values.length + 1 ∧ frame.values = values
  | .method _ _ _ _ =>
      frame.state = 1 ∧ frame.cursor.toNat = values.length ∧ frame.values = values
  | .fields owner =>
      frame.state = 1 ∧
        ∃ before field behind,
          (tree.instanceFields owner).map (·.2) = before ++ field :: behind ∧
            field.initial.isSome = true ∧
            frame.cursor.toNat = before.length ∧
            (before.filterMap (·.initial)).length = values.length

/-- The frame of a site that waits, below the frame of a node. -/
inductive Site.Holds (tree : Tree) : Site → Wait → Node → Frame → Prop where
  | part
      {site : Site}
      {values : List Value}
      {part : ExprId}
      {frame : Frame} :
      (site.parts tree)[values.length]? = some part →
      site.Gathers tree values frame →
      Holds tree site (.part values) (.expression part .value) frame
  | fields
      {owner : ClassId}
      {constructor : Option MethodImpl}
      {arguments : List ExprId}
      {values : List Value}
      {object : ObjectId}
      {frame : Frame} :
      values.length = arguments.length →
      frame.state = 1 →
      frame.values = values ++ [.object object] →
      Holds tree (.new owner constructor arguments) (.fields values object) (.fieldSetup owner)
        frame
  | call
      {id callee : FuncId}
      {arguments : List ExprId}
      {frame : Frame} :
      frame.state = 1 →
      Holds tree (.call id arguments) (.function none) (.function callee) frame
  | method
      {object : ExprId}
      {slot : Option MethodSlot}
      {target : MethodImpl}
      {arguments : List ExprId}
      {callee : FuncId}
      {frame : Frame} :
      frame.state = 2 →
      Holds tree (.method object slot target arguments) (.function none) (.function callee) frame
  | constructor
      {owner : ClassId}
      {constructor : Option MethodImpl}
      {arguments : List ExprId}
      {object : ObjectId}
      {callee : FuncId}
      {frame : Frame} :
      frame.state = 2 →
      frame.values = [.object object] →
      Holds tree (.new owner constructor arguments) (.function (some object)) (.function callee)
        frame

/-- The frame of a site is about to go on behind parts with some values. -/
inductive Site.Ready (tree : Tree) (site : Site) (frame : Frame) :
    Option Completion → List Value → Prop where
  | entered :
      frame.state = 0 →
      frame.cursor = 0 →
      frame.values = [] →
      Ready tree site frame none []
  | handed
      {values : List Value}
      {value : Value}
      {part : ExprId} :
      site.Holds tree (.part values) (.expression part .value) frame →
      Ready tree site frame (some (.value value)) (values ++ [value])

/-! ## Arguments -/

section Arguments

variable {setting : Setting} {tree : Tree} {frame : Frame} {incoming : Option Completion}
  {arguments : List ExprId} {values : List Value}

/-- The values of a frame together with the one that has just been delivered. -/
def Frame.Gathered (frame : Frame) (incoming : Option Completion) (values : List Value) : Prop :=
  incoming = none ∧ values = frame.values ∨
    ∃ value, incoming = some (.value value) ∧ values = frame.values ++ [value]

/-- The next argument. -/
theorem Step.collect_next
    {next : ExprId}
    (gathered : frame.Gathered incoming values)
    (isNext : arguments[frame.cursor.toNat]? = some next) :
    Step.collect frame arguments incoming =
      pure ({ frame with values, cursor := frame.cursor + 1 }, some next) := by
  obtain ⟨rfl, rfl⟩ | ⟨value, rfl, rfl⟩ := gathered
  · simp only [Step.collect, pure_bind, isNext]
  · simp only [Step.collect, Step.valueOf, pure_bind, isNext]

/-- Nothing but the last argument is kept behind it. -/
theorem Step.collect_all
    (gathered : frame.Gathered incoming values)
    (isLast : arguments[frame.cursor.toNat]? = none) :
    Step.collect frame arguments incoming = pure ({ frame with values }, none) := by
  obtain ⟨rfl, rfl⟩ | ⟨value, rfl, rfl⟩ := gathered
  · simp only [Step.collect, pure_bind, isLast]
  · simp only [Step.collect, Step.valueOf, pure_bind, isLast]

/-- A call without a receiver is at the argument behind those that have values. -/
theorem Site.Ready.argument
    {site : Site}
    (ready : site.Ready tree frame incoming values)
    (gathers : ∀ front, site.Gathers tree front frame →
      frame.state = 0 ∧ frame.cursor.toNat = front.length + 1 ∧ frame.values = front) :
    frame.state = 0 ∧ frame.cursor.toNat = values.length ∧ frame.Gathered incoming values := by
  cases ready with
  | entered state cursor empty => exact ⟨state, by rw [cursor]; rfl, .inl ⟨rfl, empty.symm⟩⟩
  | handed holds =>
      cases holds with
      | part _ isFront =>
          obtain ⟨state, cursor, rfl⟩ := gathers _ isFront
          exact ⟨state, by simp [cursor], .inr ⟨_, rfl, rfl⟩⟩

/-- A method call is about to evaluate its receiver, or the argument behind those with values. -/
theorem Site.Ready.methodArgument
    {object : ExprId}
    {slot : Option MethodSlot}
    {target : MethodImpl}
    (ready : (Site.method object slot target arguments).Ready tree frame incoming values) :
    frame.state = 0 ∧ frame.cursor = 0 ∧ values = [] ∧ incoming = none ∧ frame.values = [] ∨
      frame.state = 1 ∧ frame.cursor.toNat + 1 = values.length ∧
        frame.Gathered incoming values := by
  cases ready with
  | entered state cursor empty => exact .inl ⟨state, cursor, rfl, rfl, empty⟩
  | handed holds =>
      cases holds with
      | part _ isFront =>
          obtain ⟨state, cursor, rfl⟩ := isFront
          exact .inr ⟨state, by simp [cursor], .inr ⟨_, rfl, rfl⟩⟩

/-- The frame of a site makes a step that calls nothing of the host. -/
structure Site.Steps
    (setting : Setting) (site : Site) (frame : Frame) (incoming : Option Completion)
    (step : Ty → Demand → Step Move) : Prop where
  step : ∀ ty demand, site.step setting frame ty demand incoming = step ty demand
  hostCall : site.hostCall setting.tree frame incoming = pure none

/-- A call with parts left evaluates the next one. -/
theorem Site.Ready.begins
    {site : Site}
    {part : ExprId}
    (ready : site.Ready setting.tree frame incoming values)
    (noFields : site.isFields = false)
    (short : site.arguments.length < UInt32.size)
    (isNext : (site.parts setting.tree)[values.length]? = some part) :
    ∃ stay,
      site.Steps setting frame incoming
          (fun _ _ => pure (.push stay (.enter (.expression part .value) frame.act))) ∧
        stay.Stays frame ∧
        site.Holds setting.tree (.part values) (.expression part .value) stay := by
  have counted (inside : frame.cursor.toNat < site.arguments.length) :
      (frame.cursor + 1).toNat = frame.cursor.toNat + 1 :=
    UInt32.toNat_succ_of_lt inside short
  have argument {arguments : List ExprId}
      (isList : site.arguments = arguments)
      (isNext : arguments[frame.cursor.toNat]? = some part)
      (gathered : frame.Gathered incoming values) :
      Step.collect frame arguments incoming =
          pure ({ frame with values, cursor := frame.cursor + 1 }, some part) ∧
        (frame.cursor + 1).toNat = frame.cursor.toNat + 1 :=
    ⟨Step.collect_next gathered isNext,
      counted (isList ▸ (List.getElem?_eq_some_iff.mp isNext).1)⟩
  cases site with
  | call id arguments =>
      obtain ⟨state, cursor, gathered⟩ := ready.argument fun _ gathers => gathers
      obtain ⟨collects, later⟩ := @argument arguments rfl (by rw [cursor]; exact isNext) gathered
      refine ⟨{ frame with values, cursor := frame.cursor + 1 }, ⟨fun ty demand => ?_, rfl⟩,
        ⟨rfl, rfl⟩, .part isNext ⟨state, later.trans (congrArg (· + 1) cursor), rfl⟩⟩
      simp only [Site.step, Step.call, state, collects]
      rfl
  | native id arguments =>
      obtain ⟨state, cursor, gathered⟩ := ready.argument fun _ gathers => gathers
      obtain ⟨collects, later⟩ := @argument arguments rfl (by rw [cursor]; exact isNext) gathered
      refine ⟨{ frame with values, cursor := frame.cursor + 1 }, ⟨fun ty demand => ?_, ?_⟩,
        ⟨rfl, rfl⟩, .part isNext ⟨state, later.trans (congrArg (· + 1) cursor), rfl⟩⟩
      · simp only [Site.step, Step.nativeCall, collects]
        rfl
      · simp only [Site.hostCall, collects]
        rfl
  | method object slot target arguments =>
      obtain ⟨state, cursor, rfl, rfl, empty⟩ | ⟨state, cursor, gathered⟩ := ready.methodArgument
      · cases isNext
        refine ⟨{ frame with state := 1 }, ⟨fun ty demand => ?_, ?_⟩, ⟨rfl, rfl⟩,
          .part rfl ⟨rfl, by simp [cursor], empty⟩⟩
        · simp only [Site.step, Step.methodCall, state]
          rfl
        · cases target <;> simp [Site.hostCall, state]
      · obtain ⟨collects, later⟩ :=
          @argument arguments rfl (by simpa [Site.parts, ← cursor] using isNext) gathered
        refine ⟨{ frame with values, cursor := frame.cursor + 1 }, ⟨fun ty demand => ?_, ?_⟩,
          ⟨rfl, rfl⟩, .part isNext ⟨state, later.trans cursor, rfl⟩⟩
        · simp only [Site.step, Step.methodCall, state, collects]
          rfl
        · cases target with
          | user => rfl
          | native id =>
              simp only [Site.hostCall, state, ↓reduceIte, collects]
              rfl
  | new owner constructor arguments =>
      obtain ⟨state, cursor, gathered⟩ := ready.argument fun _ gathers => gathers
      obtain ⟨collects, later⟩ := @argument arguments rfl (by rw [cursor]; exact isNext) gathered
      refine ⟨{ frame with values, cursor := frame.cursor + 1 }, ⟨fun ty demand => ?_, ?_⟩,
        ⟨rfl, rfl⟩, .part isNext ⟨state, later.trans (congrArg (· + 1) cursor), rfl⟩⟩
      · simp only [Site.step, Step.newInstance, state, collects]
        rfl
      · rcases constructor with _ | _ | _ <;> simp [Site.hostCall, state]
  | fields owner => cases noFields

end Arguments

end BotScript
