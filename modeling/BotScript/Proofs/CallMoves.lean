import BotScript.Proofs.CallTurns

namespace BotScript

/-!
# Moves of calls

Once all parts of a site have values, its frame enters a function, calls the host, makes an
instance, or is done.  It does the like once the fields of an instance are set up, and it is done
once the function that it has entered has returned.
-/

open Step (Results)

/-- A completion is an exception. -/
def Completion.IsThrown (completion : Completion) : Prop :=
  ∃ error, completion = .thrown error

/-! ## Interrupted steps -/

namespace Step

variable {α β : Type} {setting : Setting}

/-- Nothing but errors and exceptions interrupts a step. -/
def Throws (step : Step α) : Prop :=
  Gives (fun _ => True) Completion.IsThrown step

namespace Throws

/-- A step that any frame could make, and what follows it. -/
theorem behind
    {post : α → Prop}
    {step : Step α}
    {next : α → Step β}
    (first : ∀ held node, Retains held node post step)
    (rest : ∀ value, Throws (next value)) :
    Throws (step >>= next) :=
  (Gives.ofRetains first fun error => ⟨error, rfl⟩).bind fun value _ => rest value

/-- A frame with a new activation on top of a frame. -/
theorem push
    (node : Node)
    (activation : Activation)
    (stay : Frame) :
    Throws (do
      let act ← Step.pushActivation setting activation
      pure (.push stay (.enter node act)) : Step Move) := by
  intro memory
  simp only [ExceptT.run_bind, StateT.run_bind, run_pushActivation]
  split
  · exact .fault
  · exact .ok trivial

/-- A delivered value. -/
theorem produce
    (value : Value)
    (ty : Ty)
    (demand : Demand) :
    Throws (Step.produce value ty demand) := by
  cases demand with
  | value => exact Gives.pure trivial
  | place => exact behind (fun _ _ => .allocate _) fun _ => Gives.pure trivial

/-- A function that is entered with arguments. -/
theorem enters
    (id : FuncId)
    (this : Option ObjectId)
    (arguments : List ExprId)
    (values : List Value)
    (stay : Frame) :
    Throws (do
      let act ← Step.bind setting id this arguments values
      pure (.push stay (.enter (.function id) act)) : Step Move) := by
  unfold Step.bind
  simp only [bind_assoc]
  refine behind (fun _ _ => .require _ _) fun function => ?_
  refine behind (fun _ _ => .activationFor function id this) fun activation => ?_
  exact behind (fun _ _ => .bindParams _ _ _ _ _) fun locals => push _ _ _

end Throws

/-- A receiver is an instance, or there is an error. -/
theorem receiver_or_raise
    (value : Option Value) :
    (∃ this, value = some (.object this) ∧ Step.receiver value = pure this) ∨
      ∃ code, Step.receiver value = Step.raise code := by
  rcases value with _ | value
  · exact .inr ⟨_, rfl⟩
  · cases value with
    | object this => exact .inl ⟨this, rfl, rfl⟩
    | _ => exact .inr ⟨_, rfl⟩

/-- The static types of arguments, unless the program misses one of them. -/
theorem typesOf_or
    (tree : Tree)
    (arguments : List ExprId) :
    arguments.mapM (Step.typeOf tree) =
        pure (arguments.map fun argument => (tree.expr argument).ty) ∨
      arguments.mapM (Step.typeOf tree) = throw (.fault .missingPart) := by
  induction arguments with
  | nil => exact .inl rfl
  | cons argument arguments inductionHypothesis =>
      rw [List.mapM_cons, List.map_cons]
      unfold Step.typeOf Tree.expr at inductionHypothesis ⊢
      cases tree.expr? argument with
      | none => exact .inr rfl
      | some node =>
          obtain types | missing := inductionHypothesis
          · exact .inl (by rw [types]; rfl)
          · exact .inr (by rw [missing]; rfl)

end Step

/-! ## Turns -/

namespace Machine

/-- The innermost frame is one of a site. -/
structure Runs
    (setting : Setting) (site : Site) (machine : Machine) (frame : Frame) (below : List Frame) :
    Prop where
  frames : machine.frames = frame :: below
  isSite : frame.node.site? setting.tree = some site
  aligned : machine.Aligned setting

namespace Runs

variable {setting : Setting} {site : Site} {machine next : Machine} {frame : Frame}
  {below : List Frame}

/-- The innermost frame is over the others. -/
theorem length
    (runs : Runs setting site machine frame below) :
    machine.frames.length = below.length + 1 := by
  rw [runs.frames]
  rfl

/-- The innermost frame. -/
theorem head?
    (runs : Runs setting site machine frame below) :
    machine.frames.head? = some frame := by
  rw [runs.frames]
  rfl

/-- The innermost frame is done when the others are left. -/
theorem drops
    {completion : Completion}
    (runs : Runs setting site machine frame below)
    (frames : next.frames = below)
    (handed : next.incoming = some completion) :
    machine.Drops next completion := by
  refine ⟨?_, handed⟩
  rw [frames, runs.frames]
  rfl

end Runs

/-- The turn of the frame of a site: its step has a result, which leads to another machine. -/
structure Turns
    (setting : Setting) (site : Site) (machine next : Machine) (frame : Frame)
    (below : List Frame) (ty : Ty) (demand : Demand) (result : Except Interrupt Move)
    (after : Memory) : Prop where
  runs : Runs setting site machine frame below
  step :
    Step.ofFrame setting frame machine.incoming =
      site.step setting frame ty demand machine.incoming
  taken :
    Results (readyMemory setting machine frame)
      (site.step setting frame ty demand machine.incoming) result after
  reaches : Reaches setting.tree frame below after next result

section Turns

variable {setting : Setting} {site : Site} {machine next : Machine} {frame : Frame}
  {below : List Frame} {ty : Ty} {demand : Demand} {result : Except Interrupt Move}
  {after : Memory}

/-- What happens to a machine whose innermost frame is one of a site. -/
theorem Runs.turned
    (runs : Runs setting site machine frame below)
    (goes : Goes setting machine next) :
    ((∃ host, next = machine.withHost host) ∨ next = machine.closeUnused) ∨
      ∃ ty demand result after,
        Turns setting site machine next frame below ty demand result after := by
  obtain rests | ⟨result, after, taken, reaches⟩ := goes.turned runs.frames
  · exact .inl rests
  · obtain ⟨ty, demand, same⟩ := Step.ofFrame_site runs.isSite machine.incoming
    exact .inr ⟨ty, demand, result, after, runs, same, same ▸ taken, reaches⟩

/-- A step that enters nothing leaves the number of activations. -/
theorem Turns.size_activations
    (turns : Turns setting site machine next frame below ty demand result after)
    (part : ∀ stay child, result = .ok (.push stay child) → child.node.ownsActivation = false) :
    after.activations.size = machine.memory.activations.size :=
  turns.runs.aligned.size_activations turns.runs.frames (turns.step ▸ turns.taken) part

/-- A step that enters nothing leaves no more activations, and its heap. -/
theorem Turns.leaves
    (turns : Turns setting site machine next frame below ty demand result after)
    (part : ∀ stay child, result = .ok (.push stay child) → child.node.ownsActivation = false) :
    next.memory.activations.size ≤ machine.memory.activations.size ∧
      next.memory.world = after.world := by
  have size := turns.size_activations part
  have reaches := turns.reaches
  obtain ⟨most, same⟩ := memoryAfter_le frame after
  rw [size] at most
  have settles (memory : next.memory = memoryAfter frame after) :
      next.memory.activations.size ≤ machine.memory.activations.size ∧
        next.memory.world = after.world := by
    rw [memory]
    exact ⟨most, same⟩
  have goesOn (memory : next.memory = after) :
      next.memory.activations.size ≤ machine.memory.activations.size ∧
        next.memory.world = after.world := by
    rw [memory]
    exact ⟨size.le, rfl⟩
  cases result with
  | ok move =>
      cases move with
      | push stay child => exact goesOn reaches.2.2
      | tick stay => exact goesOn reaches.2.2
      | complete completion => exact settles reaches.2.2
  | error interrupt =>
      cases interrupt with
      | propagate completion => exact settles reaches.2.2
      | fault fault =>
          cases fault with
          | error code => exact settles reaches.2.2
          | _ => exact reaches.elim

/-- A step that is interrupted ends the site with an exception. -/
theorem Turns.throws
    {interrupt : Interrupt}
    (turns : Turns setting site machine next frame below ty demand (.error interrupt) after)
    (throws : Step.Throws (site.step setting frame ty demand machine.incoming)) :
    ∃ error, machine.Drops next (.thrown error) := by
  have given := throws (readyMemory setting machine frame)
  rw [congrArg Prod.fst turns.taken] at given
  have reaches := turns.reaches
  have left {error : RuntimeError}
      (frames : next.frames = below)
      (handed : next.incoming = some (.thrown error)) :
      ∃ error, machine.Drops next (.thrown error) :=
    ⟨error, turns.runs.drops frames handed⟩
  cases given with
  | propagate isThrown =>
      obtain ⟨error, rfl⟩ := isThrown
      exact left reaches.1 reaches.2.1
  | @fault fault =>
      cases fault with
      | error code => exact left reaches.1 reaches.2.1
      | _ => exact reaches.elim

/-- A step that is interrupted in front of a call ends the site with an exception. -/
theorem Turns.refuses
    {interrupt : Interrupt}
    (turns : Turns setting site machine next frame below ty demand (.error interrupt) after)
    (throws : Step.Throws (site.step setting frame ty demand machine.incoming))
    (calls : machine.hostCalls setting = []) :
    ∃ error, machine.Refuses setting next error := by
  obtain ⟨error, drops⟩ := turns.throws throws
  exact ⟨error, calls, (turns.leaves fun _ _ pushed => by cases pushed).1, drops⟩

/-- A step that makes no instance and enters nothing. -/
theorem Turns.quiet
    (turns : Turns setting site machine next frame below ty demand result after)
    (part : ∀ stay child, result = .ok (.push stay child) → child.node.ownsActivation = false)
    (objects :
      after.world.heap.objects.size =
        (readyMemory setting machine frame).world.heap.objects.size)
    (calls : machine.hostCalls setting = []) :
    machine.Quiet setting next := by
  obtain ⟨activations, world⟩ := turns.leaves part
  refine ⟨calls, activations, ?_⟩
  rw [world, objects]
  exact (readyMemory_same setting machine frame).2

end Turns

namespace Runs

variable {setting : Setting} {site : Site} {machine next : Machine} {frame : Frame}
  {below : List Frame}

/-- The calls of the host that the next turn makes. -/
theorem hostCalls_eq
    (runs : Runs setting site machine frame below)
    {calls : Option HostCall}
    {after : Memory}
    (taken :
      Results machine.memory (site.hostCall setting.tree frame machine.incoming) (.ok calls)
        after) :
    machine.hostCalls setting = calls.toList := by
  unfold hostCalls Frame.hostCall?
  rw [runs.frames]
  simp only [Step.hostCallOf_site runs.isSite]
  rw [show (site.hostCall setting.tree frame machine.incoming).run.run machine.memory =
    (.ok calls, after) from taken]

/-- A turn of a site that calls nothing of the host. -/
theorem hostCalls_none
    (runs : Runs setting site machine frame below)
    (call : site.hostCall setting.tree frame machine.incoming = pure none) :
    machine.hostCalls setting = [] := by
  have taken :
      Results machine.memory (site.hostCall setting.tree frame machine.incoming) (.ok none)
        machine.memory := by
    rw [call]
    rfl
  exact runs.hostCalls_eq taken

/-- A turn that is interrupted before it calls the host calls nothing. -/
theorem hostCalls_error
    (runs : Runs setting site machine frame below)
    {interrupt : Interrupt}
    {after : Memory}
    (taken :
      Results machine.memory (site.hostCall setting.tree frame machine.incoming)
        (.error interrupt) after) :
    machine.hostCalls setting = [] := by
  unfold hostCalls Frame.hostCall?
  rw [runs.frames]
  simp only [Step.hostCallOf_site runs.isSite]
  rw [show (site.hostCall setting.tree frame machine.incoming).run.run machine.memory =
    (.error interrupt, after) from taken]
  rfl

end Runs

end Machine

/-! ## Ends of calls -/

section Ends

variable {setting : Setting} {site : Site} {frame : Frame} {wait : Wait} {child : Node}

/-- A value is delivered, or a new cell that holds it. -/
theorem Step.produce_yields
    (value : Value)
    (ty : Ty)
    (demand : Demand)
    (before : Memory) :
    ∃ completion after,
      Results before (Step.produce value ty demand) (.ok (.complete completion)) after ∧
        completion.Yields after.world.heap value ∧
        after.activations = before.activations ∧
        after.world.heap.objects = before.world.heap.objects := by
  cases demand with
  | value => exact ⟨_, _, rfl, rfl, rfl, rfl⟩
  | place =>
      refine ⟨_, _, rfl, ?_, rfl, rfl⟩
      exact congrArg Cell.value (Heap.cell_addCell before.world.heap (.withValue ty value))

/-- Behind the function that it has entered, a site ends with its instance, or with the result. -/
theorem Site.Holds.returns
    {made : Option ObjectId}
    (holds : site.Holds setting.tree (.function made) child frame)
    (value : Value) :
    site.Steps setting frame (some (.value value))
      (fun ty demand => Step.produce ((made.map .object).getD value) ty demand) := by
  cases holds with
  | call state =>
      refine ⟨fun ty demand => ?_, rfl⟩
      simp only [Site.step, Step.call, state]
      rfl
  | @method _ _ target _ _ _ state =>
      refine ⟨fun ty demand => ?_, ?_⟩
      · simp only [Site.step, Step.methodCall, state]
        rfl
      · cases target <;> simp [Site.hostCall, state]
  | @constructor _ constructor _ _ _ _ state values =>
      refine ⟨fun ty demand => ?_, ?_⟩
      · simp only [Site.step, Step.newInstance, state, values]
        rfl
      · rcases constructor with _ | _ | _ <;> simp [Site.hostCall, state]

/-- An exception goes on from whatever a call waits for. -/
theorem Site.Holds.fails
    (holds : site.Holds setting.tree wait child frame)
    (noFields : site.isFields = false)
    (error : RuntimeError) :
    (∀ ty demand,
      site.step setting frame ty demand (some (.thrown error)) =
        throw (.propagate (.thrown error))) ∧
      (site.hostCall setting.tree frame (some (.thrown error)) = pure none ∨
        site.hostCall setting.tree frame (some (.thrown error)) =
          throw (.propagate (.thrown error))) := by
  cases holds with
  | part isPart gathers =>
      cases site with
      | call id arguments =>
          refine ⟨fun ty demand => ?_, .inl rfl⟩
          simp only [Site.step, Step.call, gathers.1]
          rfl
      | native id arguments => exact ⟨fun _ _ => rfl, .inr rfl⟩
      | method object slot target arguments =>
          refine ⟨fun ty demand => ?_, ?_⟩
          · simp only [Site.step, Step.methodCall, gathers.1]
            rfl
          · cases target with
            | user => exact .inl rfl
            | native id =>
                simp only [Site.hostCall, gathers.1, ↓reduceIte]
                exact .inr rfl
      | new owner constructor arguments =>
          refine ⟨fun ty demand => ?_, .inl ?_⟩
          · simp only [Site.step, Step.newInstance, gathers.1]
            rfl
          · rcases constructor with _ | _ | _ <;> simp [Site.hostCall, gathers.1]
      | fields owner => cases noFields
  | @fields _ constructor _ _ _ _ _ state =>
      refine ⟨fun ty demand => ?_, ?_⟩
      · simp only [Site.step, Step.newInstance, state]
        rfl
      · rcases constructor with _ | _ | _
        · exact .inl rfl
        · exact .inl rfl
        · simp only [Site.hostCall, state, ↓reduceIte]
          exact .inr rfl
  | call state =>
      refine ⟨fun ty demand => ?_, .inl rfl⟩
      simp only [Site.step, Step.call, state]
      rfl
  | @method _ _ target _ _ _ state =>
      refine ⟨fun ty demand => ?_, .inl ?_⟩
      · simp only [Site.step, Step.methodCall, state]
        rfl
      · cases target <;> simp [Site.hostCall, state]
  | @constructor _ constructor _ _ _ _ state =>
      refine ⟨fun ty demand => ?_, .inl ?_⟩
      · simp only [Site.step, Step.newInstance, state]
        rfl
      · rcases constructor with _ | _ | _ <;> simp [Site.hostCall, state]

end Ends

/-! ## What turns do -/

/-- A new instance is behind the others and has its layout. -/
theorem Heap.newInstance_made
    (heap : Heap)
    (layout : ClassLayout) :
    (heap.newInstance layout).1.index = heap.objects.size ∧
      (heap.newInstance layout).2.objects.size = heap.objects.size + 1 ∧
      ((heap.newInstance layout).2.object (heap.newInstance layout).1).layout = layout := by
  obtain ⟨⟨cells, grown⟩, -, -⟩ :=
    heap.addCells_grows (layout.allFields.map fun field => Cell.declared field.ty)
  simp [Heap.newInstance, Heap.addObject, Heap.object, grown]

namespace Machine

variable {setting : Setting} {site : Site} {machine next : Machine} {frame stay : Frame}
  {below : List Frame} {ty : Ty} {demand : Demand} {result : Except Interrupt Move}
  {after : Memory}

/-- A memory that is ready for a call of the program is the one that was there. -/
theorem Runs.readyMemory
    (runs : Runs setting site machine frame below)
    (program : site.callsHost frame = false) :
    readyMemory setting machine frame = machine.memory := by
  unfold Machine.readyMemory
  rw [Frame.callsHost_site runs.isSite, program]
  rfl

variable (turns : Turns setting site machine next frame below ty demand result after)

include turns

/-- The next part of a site is evaluated. -/
theorem Turns.begins
    {part : ExprId}
    (step :
      site.step setting frame ty demand machine.incoming =
        pure (.push stay (.enter (.expression part .value) frame.act)))
    (stays : stay.Stays frame)
    (calls : machine.hostCalls setting = []) :
    machine.Quiet setting next ∧
      machine.Pushes next (.enter (.expression part .value) frame.act) ∧
      next.frames = .enter (.expression part .value) frame.act :: stay :: below := by
  have taken := turns.taken
  rw [step] at taken
  cases taken
  obtain ⟨frames, handed, -⟩ := turns.reaches
  refine ⟨turns.quiet (fun _ _ pushed => by cases pushed; rfl) rfl calls, ?_, frames⟩
  exact ⟨frame, stay, below, turns.runs.frames, stays, frames, handed⟩

/-- An exception goes on to the frame below. -/
theorem Turns.fails
    {error : RuntimeError}
    (step :
      site.step setting frame ty demand machine.incoming = throw (.propagate (.thrown error)))
    (calls : machine.hostCalls setting = []) :
    machine.Quiet setting next ∧ machine.Drops next (.thrown error) := by
  have taken := turns.taken
  rw [step] at taken
  cases taken
  obtain ⟨frames, handed, -⟩ := turns.reaches
  exact ⟨turns.quiet (fun _ _ pushed => by cases pushed) rfl calls, turns.runs.drops frames handed⟩

/-- A site ends with a value. -/
theorem Turns.produces
    {value : Value}
    (step : site.step setting frame ty demand machine.incoming = Step.produce value ty demand)
    (calls : machine.hostCalls setting = []) :
    machine.Quiet setting next ∧
      ∃ completion,
        machine.Drops next completion ∧ completion.Yields next.memory.world.heap value := by
  obtain ⟨completion, reached, produced, yields, -, objects⟩ :=
    Step.produce_yields value ty demand (Machine.readyMemory setting machine frame)
  have taken := turns.taken
  rw [step] at taken
  cases produced.symm.trans taken
  obtain ⟨frames, handed, -⟩ := turns.reaches
  have world := (turns.leaves fun _ _ pushed => by cases pushed).2
  exact ⟨turns.quiet (fun _ _ pushed => by cases pushed) (by rw [objects]) calls, completion,
    turns.runs.drops frames handed, world ▸ yields⟩

/-- A site that binds arguments enters the function, or ends with an exception. -/
theorem Turns.enters
    {id : FuncId}
    {this : Option ObjectId}
    {arguments : List ExprId}
    {values : List Value}
    (slotted : setting.tree.Slotted)
    (step :
      (site.step setting frame ty demand machine.incoming).run.run machine.memory =
        (do
          let act ← Step.bind setting id this arguments values
          pure (.push stay (.enter (.function id) act)) : Step Move).run.run machine.memory)
    (throws : Step.Throws (site.step setting frame ty demand machine.incoming))
    (stays : stay.Stays frame)
    (program : site.callsHost frame = false)
    (calls : machine.hostCalls setting = []) :
    (∃ act,
        next.frames = .enter (.function id) act :: stay :: below ∧
          machine.Enters setting next id this arguments values) ∨
      ∃ error, machine.Refuses setting next error := by
  cases result with
  | error interrupt => exact .inr (turns.refuses throws calls)
  | ok move =>
      have taken := turns.taken
      rw [turns.runs.readyMemory program, Results, step] at taken
      obtain ⟨act, between, isBound, rest⟩ := Results.bind_ok taken
      obtain ⟨function, locals, heap, found, rfl, rfl, grows, binds⟩ :=
        Step.bind_binds slotted isBound
      cases rest
      obtain ⟨frames, handed, memory⟩ := turns.reaches
      refine .inl ⟨_, frames, calls, ⟨frame, stay, below, turns.runs.frames, stays, frames, handed⟩,
        function, locals, found, ?_⟩
      rw [memory]
      exact ⟨rfl, grows, binds⟩

/-- A new instance is made, or the site ends with an exception. -/
theorem Turns.makes
    {owner : ClassId}
    {values : List Value}
    (step :
      site.step setting frame ty demand machine.incoming = do
        let layout ← Step.require .notAClass (setting.tree.layout? owner)
        let object ← Step.allocate fun heap => heap.newInstance layout
        let act ← Step.pushActivation setting (.bare (some object))
        pure (.push { frame with values := values ++ [.object object], state := 1 }
          (.enter (.fieldSetup owner) act)))
    (program : site.callsHost frame = false)
    (calls : machine.hostCalls setting = []) :
    (∃ act object,
        next.frames =
            .enter (.fieldSetup owner) act ::
              { frame with values := values ++ [.object object], state := 1 } :: below ∧
          machine.Makes setting next owner object) ∨
      ∃ error, machine.Refuses setting next error := by
  have throws : Step.Throws (site.step setting frame ty demand machine.incoming) := by
    rw [step]
    exact .behind (fun _ _ => .require _ _) fun layout =>
      .behind (fun _ _ => .allocate _) fun object => .push _ _ _
  cases result with
  | error interrupt => exact .inr (turns.refuses throws calls)
  | ok move =>
      have taken := turns.taken
      rw [turns.runs.readyMemory program, step] at taken
      obtain ⟨layout, _, required, taken⟩ := Results.bind_ok taken
      obtain ⟨found, rfl⟩ := Results.require_ok required
      obtain ⟨_, _, made, taken⟩ := Results.bind_ok taken
      cases made
      obtain ⟨act, _, pushed, taken⟩ := Results.bind_ok taken
      obtain ⟨rfl, rfl⟩ := Step.pushActivation_ok pushed
      cases taken
      obtain ⟨frames, handed, memory⟩ := turns.reaches
      obtain ⟨fresh, size, made⟩ := machine.memory.world.heap.newInstance_made layout
      obtain ⟨entry, -, rfl⟩ := Option.map_eq_some_iff.mp found
      refine .inl ⟨_, _, frames, calls, fresh, ?_, ?_, ?_,
        ⟨frame, { frame with values := values ++ [.object _], state := 1 }, below,
          turns.runs.frames, ⟨rfl, rfl⟩, frames, handed⟩⟩
      · rw [memory]
        exact size
      · rw [memory]
        exact congrArg ClassLayout.id made
      · rw [memory]

/-- A function of the host is called, and the site ends with an exception or with a value. -/
theorem Turns.callsHost
    {native : NativeId}
    {this : Option ObjectId}
    {arguments : List ExprId}
    {values : List Value}
    {delivered : Value → Value}
    (step :
      site.step setting frame ty demand machine.incoming = do
        let value ← Step.callNative setting native this arguments values
        Step.produce (delivered value) ty demand)
    (call :
      site.hostCall setting.tree frame machine.incoming = do
        let types ← arguments.mapM (Step.typeOf setting.tree)
        pure (some ⟨native, this, values, types⟩)) :
    machine.CallsHost setting next native this arguments values ∧
      ∃ completion,
        machine.Drops next completion ∧
          ((∃ error, completion = .thrown error) ∨
            ∃ value, completion.Yields next.memory.world.heap (delivered value)) := by
  have throws : Step.Throws (site.step setting frame ty demand machine.incoming) := by
    rw [step]
    exact .behind (fun _ _ => .callNative _ _ _ _) fun value => .produce _ _ _
  obtain types | missing := Step.typesOf_or setting.tree arguments
  · have calls :
        machine.hostCalls setting =
          [⟨native, this, values,
            arguments.map fun argument => (setting.tree.expr argument).ty⟩] := by
      rw [types] at call
      have taken :
          Results machine.memory (site.hostCall setting.tree frame machine.incoming)
            (.ok (some ⟨native, this, values,
              arguments.map fun argument => (setting.tree.expr argument).ty⟩)) machine.memory := by
        rw [call]
        rfl
      exact turns.runs.hostCalls_eq taken
    cases result with
    | error interrupt =>
        obtain ⟨error, drops⟩ := turns.throws throws
        exact ⟨⟨calls, (turns.leaves fun _ _ pushed => by cases pushed).1⟩, _, drops,
          .inl ⟨error, rfl⟩⟩
    | ok move =>
        have taken := turns.taken
        rw [step] at taken
        obtain ⟨value, between, -, taken⟩ := Results.bind_ok taken
        obtain ⟨completion, reached, produced, yields, -, -⟩ :=
          Step.produce_yields (delivered value) ty demand between
        cases produced.symm.trans taken
        obtain ⟨frames, handed, -⟩ := turns.reaches
        obtain ⟨activations, world⟩ := turns.leaves fun _ _ pushed => by cases pushed
        exact ⟨⟨calls, activations⟩, completion, turns.runs.drops frames handed,
          .inr ⟨value, world ▸ yields⟩⟩
  · have taken := turns.taken
    rw [step, Step.callNative, missing] at taken
    cases taken
    exact turns.reaches.elim

end Machine

end BotScript
