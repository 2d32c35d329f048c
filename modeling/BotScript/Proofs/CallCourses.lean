import BotScript.Proofs.CallActions

namespace BotScript

/-!
# Courses of calls

From the entry of a site on, every machine that follows another one is at a stage that is one step
behind the stage of the other.  So the parts of a site are evaluated in their order, each once, and
nothing is called and no instance is made in front of the last of them, however often the program
is stopped, saved and restored.
-/

/-! ## Turns of a site -/

/-- What a frame waits for ends with what the frame on top of it delivers. -/
theorem Site.Holds.ends
    {tree : Tree}
    {site : Site}
    {wait : Wait}
    {child : Node}
    {frame : Frame}
    {completion : Completion}
    (holds : site.Holds tree wait child frame)
    (delivers : child.Delivers completion) :
    wait.Ends completion := by
  cases holds <;> cases completion <;> trivial

namespace Machine

variable {setting : Setting} {site : Site} {machine next : Machine} {frame : Frame}
  {below : List Frame} {ty : Ty} {demand : Demand} {result : Except Interrupt Move}
  {after : Memory} {wait : Wait} {child : Node}

/-- An exception goes on from whatever a call waits for. -/
theorem Turns.passes
    {error : RuntimeError}
    (turns : Turns setting site machine next frame below ty demand result after)
    (holds : site.Holds setting.tree wait child frame)
    (noFields : site.isFields = false)
    (isIncoming : machine.incoming = some (.thrown error)) :
    (Stage.handed wait (.thrown error)).Leads setting site below.length machine next := by
  have fails := holds.fails noFields error
  rw [← isIncoming] at fails
  obtain ⟨step, call⟩ := fails
  have calls : machine.hostCalls setting = [] := by
    obtain call | call := call
    · exact turns.runs.hostCalls_none call
    · have taken :
          Step.Results machine.memory (site.hostCall setting.tree frame machine.incoming)
            (.error (.propagate (.thrown error))) machine.memory := by
        rw [call]
        rfl
      exact turns.runs.hostCalls_error taken
  obtain ⟨quiet, drops⟩ := turns.fails (step ty demand) calls
  exact ⟨_, .fails turns.runs.length quiet drops, drops.isDone turns.runs⟩

/-- Fields that are handed an exception pass it on, unless the instance is not there. -/
theorem fieldSetup_thrown
    {owner : ClassId}
    {error : RuntimeError}
    {before : Memory}
    (state : frame.state = 1)
    (taken :
      Step.Results before (Step.fieldSetup setting frame owner (some (.thrown error))) result
        after) :
    result = .error (.fault .missingPart) ∨
      after = before ∧
        (result = .error (.propagate (.thrown error)) ∨
          ∃ code,
            result = .error (.fault (.error code)) ∧
              (before.activations[frame.act.toNat]?).bind (·.this) = none) := by
  unfold Step.fieldSetup at taken
  dsimp only at taken
  rw [state] at taken
  cases isClass : setting.tree.class? owner with
  | none =>
      rw [isClass] at taken
      cases taken
      exact .inl rfl
  | some entry =>
      simp only [isClass, Step.part, pure_bind] at taken
      have current :
          (Step.activationOf frame).run.run before =
            (Step.require .notRunning before.activations[frame.act.toNat]?).run.run before := rfl
      cases isActivation : before.activations[frame.act.toNat]? with
      | none =>
          rw [isActivation] at current
          cases (Step.Results.stop current).symm.trans taken
          exact .inr ⟨rfl, .inr ⟨_, rfl, rfl⟩⟩
      | some activation =>
          rw [isActivation] at current
          have taken := (Step.Results.run_bind current).symm.trans taken
          cases isThis : activation.this with
          | none =>
              rw [isThis] at taken
              cases taken
              exact .inr ⟨rfl, .inr ⟨_, rfl, isThis⟩⟩
          | some this =>
              rw [isThis] at taken
              cases taken
              exact .inr ⟨rfl, .inl rfl⟩

/-- An exception goes on from an initial value of a field. -/
theorem Turns.passes_fields
    {owner : ClassId}
    {error : RuntimeError}
    (turns : Turns setting (.fields owner) machine next frame below ty demand result after)
    (holds : (Site.fields owner).Holds setting.tree wait child frame)
    (isIncoming : machine.incoming = some (.thrown error)) :
    (Stage.handed wait (.thrown error)).Leads setting (.fields owner) below.length machine
      next := by
  have calls := turns.runs.hostCalls_none rfl
  have isStep : (Site.fields owner).step setting frame ty demand machine.incoming =
      Step.fieldSetup setting frame owner (some (.thrown error)) := by
    rw [isIncoming]
    rfl
  have taken := turns.taken
  rw [isStep] at taken
  have reaches := turns.reaches
  cases holds with
  | part isPart gathers =>
      obtain rfl | ⟨rfl, rfl | ⟨code, rfl, lost⟩⟩ := fieldSetup_thrown gathers.1 taken
      · exact reaches.elim
      · have quiet := turns.quiet (fun _ _ pushed => by cases pushed) rfl calls
        have drops := turns.runs.drops reaches.1 reaches.2.1
        exact ⟨_, .fails turns.runs.length quiet drops, drops.isDone turns.runs⟩
      · have drops := turns.runs.drops reaches.1 reaches.2.1
        have gone : machine.instance? = none := by
          rw [turns.runs.readyMemory rfl] at lost
          simpa [instance?, turns.runs.frames] using lost
        have activations := (turns.leaves fun _ _ pushed => by cases pushed).1
        exact ⟨_, .loses turns.runs.length rfl gone ⟨calls, activations, drops⟩,
          drops.isDone turns.runs⟩

/-- The frame of a site goes on with what the frame on top of it has delivered. -/
theorem Turns.goesOn
    {completion : Completion}
    (turns : Turns setting site machine next frame below ty demand result after)
    (callable : setting.tree.Callable)
    (holds : site.Holds setting.tree wait child frame)
    (isIncoming : machine.incoming = some completion)
    (ends : wait.Ends completion) :
    (Stage.handed wait completion).Leads setting site below.length machine next := by
  cases completion with
  | thrown error =>
      cases isFields : site.isFields with
      | true =>
          cases site with
          | fields owner => exact turns.passes_fields holds isIncoming
          | _ => cases isFields
      | false => exact turns.passes holds isFields isIncoming
  | value value =>
      cases wait with
      | part values =>
          refine turns.proceeds callable ?_ .handed
          rw [isIncoming]
          cases holds with
          | part isPart gathers => exact .handed (.part isPart gathers)
      | fields values object => exact ends.elim
      | function made =>
          obtain ⟨step, call⟩ := holds.returns value
          rw [← isIncoming] at call
          obtain ⟨quiet, completion, drops, yields⟩ :=
            turns.produces (isIncoming ▸ step ty demand) (turns.runs.hostCalls_none call)
          exact ⟨_, .returns turns.runs.length quiet drops yields, drops.isDone turns.runs⟩
  | normal =>
      cases wait with
      | fields values object =>
          obtain ⟨full, ⟨later, constructs, isLater⟩ | ⟨error, refuses⟩⟩ :=
            turns.concludes callable holds isIncoming
          · exact ⟨later, .constructs turns.runs.length full constructs, isLater⟩
          · exact ⟨_, .refusesConstructor turns.runs.length refuses,
              refuses.drops.isDone turns.runs⟩
      | _ => exact ends.elim
  | _ => cases wait <;> exact ends.elim

end Machine

/-! ## Stages -/

namespace Stage

variable {setting : Setting} {site : Site} {depth : Nat} {stage : Stage}
  {machine next : Machine}

/-- A machine with the same frames is at the same stage. -/
theorem At.same
    {tree : Tree}
    (isAt : stage.At tree site depth machine)
    (frames : next.frames = machine.frames)
    (incoming : next.incoming = machine.incoming) :
    stage.At tree site depth next := by
  cases isAt with
  | entered isFrames isDepth isSite isIncoming state cursor values =>
      exact .entered (frames.trans isFrames) isDepth isSite (incoming.trans isIncoming) state cursor
        values
  | waiting above isFrames isDepth isSite holds =>
      exact .waiting above (frames.trans isFrames) isDepth isSite holds
  | handed isFrames isDepth isSite holds isIncoming ends =>
      exact .handed (frames.trans isFrames) isDepth isSite holds (incoming.trans isIncoming) ends
  | done isDepth => exact .done (frames ▸ isDepth)

/-- Between turns, the stage stays. -/
theorem At.rests
    (isAt : stage.At setting.tree site depth machine)
    (rests : (∃ host, next = machine.withHost host) ∨ next = machine.closeUnused) :
    stage.Leads setting site depth machine next := by
  refine ⟨stage, .rests rests, ?_⟩
  obtain ⟨host, rfl⟩ | rfl := rests
  · exact isAt.same rfl rfl
  · exact isAt.same rfl rfl

/-- The frame of a site waits until the frame on top of it is done. -/
theorem waits
    {wait : Wait}
    {child frame : Frame}
    {above below : List Frame}
    (aligned : machine.Aligned setting)
    (goes : Machine.Goes setting machine next)
    (frames : machine.frames = above ++ child :: frame :: below)
    (isSite : frame.node.site? setting.tree = some site)
    (holds : site.Holds setting.tree wait child.node frame) :
    (Stage.waiting wait).Leads setting site below.length machine next := by
  have covered : below.length + 1 < machine.frames.length := by
    rw [frames, List.length_append, List.length_cons, List.length_cons]
    omega
  have goesOn
      {other : Frame}
      (front : List Frame)
      (isFrames : next.frames = front ++ other :: frame :: below)
      (same : other.node = child.node) :
      (Stage.waiting wait).Leads setting site below.length machine next := by
    refine ⟨_, .waits covered ?_, .waiting front isFrames rfl isSite (same ▸ holds)⟩
    rw [isFrames, List.length_append, List.length_cons, List.length_cons]
    omega
  cases above with
  | nil =>
      obtain ⟨same, -⟩ | ⟨other, top, stays, pushed⟩ | ⟨other, stays, ticked⟩ |
          ⟨completion, delivers, left, handed⟩ :=
        aligned.goes_cons frames goes
      · exact goesOn [] (same.trans frames) rfl
      · exact goesOn [top] pushed stays.1
      · exact goesOn [] ticked stays.1
      · have drops : machine.Drops next completion := ⟨by rw [frames]; exact left, handed⟩
        have ends := holds.ends delivers
        exact ⟨_, .hands (by rw [frames]; rfl) drops ends,
          .handed left rfl isSite holds handed ends⟩
  -- The frame that the site waits for is not the innermost and stays.
  | cons top above =>
      obtain ⟨same, -⟩ | ⟨other, pushedTop, -, pushed⟩ | ⟨other, -, ticked⟩ | ⟨_, -, left, -⟩ :=
        aligned.goes_cons frames goes
      · exact goesOn (top :: above) (same.trans frames) rfl
      · exact goesOn (pushedTop :: other :: above) pushed rfl
      · exact goesOn (other :: above) ticked rfl
      · exact goesOn above left rfl

/-- Whatever happens to a machine, the stage of a site leads to the next one. -/
theorem At.goes
    (isAt : stage.At setting.tree site depth machine)
    (callable : setting.tree.Callable)
    (aligned : machine.Aligned setting)
    (unfinished : depth < machine.frames.length)
    (goes : Machine.Goes setting machine next) :
    stage.Leads setting site depth machine next := by
  have same := isAt
  cases same with
  | entered frames isDepth isSite incoming state cursor values =>
      subst isDepth
      obtain rests | ⟨ty, demand, result, after, turns⟩ :=
        Machine.Runs.turned ⟨frames, isSite, aligned⟩ goes
      · exact isAt.rests rests
      · refine turns.proceeds callable ?_ .entered
        rw [incoming]
        exact .entered state cursor values
  | waiting above frames isDepth isSite holds =>
      subst isDepth
      exact waits aligned goes frames isSite holds
  | handed frames isDepth isSite holds incoming ends =>
      subst isDepth
      obtain rests | ⟨ty, demand, result, after, turns⟩ :=
        Machine.Runs.turned ⟨frames, isSite, aligned⟩ goes
      · exact isAt.rests rests
      · exact turns.goesOn callable holds incoming ends
  | done isDepth => omega

/-! ## Saved and restored stages -/

end Stage

/-- The frame of a site that has been saved and restored waits for what it has waited for. -/
theorem Site.Holds.restored
    {tree : Tree}
    {site : Site}
    {wait : Wait}
    {child : Node}
    {number : HeapRef → UInt32}
    {frame other : Frame}
    (holds : site.Holds tree wait child frame)
    (restores : frame.Restores number other) :
    site.Holds tree (wait.renamed number) child other := by
  obtain ⟨node, state⟩ := Prod.mk.inj restores.shape
  replace state := (Prod.mk.inj state).1
  cases holds with
  | @part _ values part _ isPart gathers =>
      have length : (values.map (Value.renamed number)).length = values.length :=
        List.length_map _
      refine .part (by rw [length]; exact isPart) ?_
      have collected
          (same : frame.values = values) :
          other.values = values.map (Value.renamed number) := by
        rw [restores.values, same]
      cases site with
      | fields owner =>
          obtain ⟨begun, before, field, behind, fields, initial, cursor, counted⟩ := gathers
          exact ⟨state.trans begun, before, field, behind, fields, initial,
            by rw [restores.cursor, cursor], by rw [counted, length]⟩
      | _ =>
          obtain ⟨begun, cursor, same⟩ := gathers
          exact ⟨state.trans begun, by rw [restores.cursor, cursor, length], collected same⟩
  | fields full begun values =>
      refine .fields (by rw [List.length_map, full]) (state.trans begun) ?_
      rw [restores.values, values, List.map_append]
      rfl
  | call begun => exact .call (state.trans begun)
  | method begun => exact .method (state.trans begun)
  | constructor begun values =>
      refine .constructor (state.trans begun) ?_
      rw [restores.values, values]
      rfl

/-- What a saved and restored frame waits for ends with what is handed on. -/
theorem Wait.Ends.restored
    {wait : Wait}
    {completion : Completion}
    (ends : wait.Ends completion)
    (number : HeapRef → UInt32) :
    (wait.renamed number).Ends (completion.renamed number) := by
  cases wait <;> cases completion <;> exact ends

namespace Stage

variable {setting : Setting} {site : Site} {depth : Nat} {stage : Stage}
  {machine next : Machine}

/-- A site that has been saved and restored is at the same stage. -/
theorem At.restored
    {number : HeapRef → UInt32}
    (isAt : stage.At setting.tree site depth machine)
    (frames : List.Forall₂ (Frame.Restores number) machine.frames next.frames)
    (incoming : next.incoming = machine.incoming.map (Completion.renamed number)) :
    (stage.renamed number).At setting.tree site depth next := by
  cases isAt with
  | @entered frame below isFrames isDepth isSite isIncoming state cursor values =>
      rw [isFrames] at frames
      obtain ⟨other, others, restores, rest, same⟩ := List.forall₂_cons_left_iff.mp frames
      obtain ⟨node, state'⟩ := Prod.mk.inj restores.shape
      refine .entered same (rest.length_eq.symm.trans isDepth) (node ▸ isSite) ?_
        ((Prod.mk.inj state').1.trans state) (restores.cursor.trans cursor) ?_
      · rw [incoming, isIncoming]
        rfl
      · rw [restores.values, values]
        rfl
  | @waiting wait child frame below above isFrames isDepth isSite holds =>
      rw [isFrames] at frames
      have behind := List.forall₂_drop_append _ _ _ frames.flip
      obtain ⟨top, _, topRestores, outer, same⟩ := List.forall₂_cons_right_iff.mp behind
      obtain ⟨other, others, restores, rest, rfl⟩ := List.forall₂_cons_right_iff.mp outer
      have node : other.node = frame.node := (Prod.mk.inj restores.shape).1
      have topNode : top.node = child.node := (Prod.mk.inj topRestores.shape).1
      refine .waiting (next.frames.take above.length) ?_ (rest.length_eq.trans isDepth)
        (node ▸ isSite) (topNode ▸ holds.restored restores)
      rw [← same, List.take_append_drop]
  | @handed wait child completion frame below isFrames isDepth isSite holds isIncoming ends =>
      rw [isFrames] at frames
      obtain ⟨other, others, restores, rest, same⟩ := List.forall₂_cons_left_iff.mp frames
      have node : other.node = frame.node := (Prod.mk.inj restores.shape).1
      refine .handed same (rest.length_eq.symm.trans isDepth) (node ▸ isSite)
        (holds.restored restores) ?_ (ends.restored number)
      rw [incoming, isIncoming]
      rfl
  | done isDepth => exact .done (frames.length_eq.symm.trans isDepth)

end Stage

/-! ## Runs -/

/-- One machine follows another: a turn, a change of the host, or a save and a restore. -/
inductive Machine.Follows (setting : Setting) : Machine → Machine → Prop where
  | goes
      {machine next : Machine} :
      Machine.Goes setting machine next →
      Follows setting machine next
  | restored
      {machine next : Machine}
      {snapshot : Snapshot}
      {signature expected : UInt32}
      {host : Host} :
      machine.save setting.tree signature = .ok snapshot →
      Machine.restore setting.tree snapshot expected host = .ok next →
      Follows setting machine next

namespace Machine

/-- The expression that the frame over a number of others begins to evaluate on top of itself. -/
def begins? (depth : Nat) (machine next : Machine) : Option ExprId :=
  if machine.frames.length = depth + 1 ∧ next.frames.length = depth + 2 then
    match next.frames.head?.map Frame.node with
    | some (.expression part _) => some part
    | _ => none
  else none

/-- The expressions that the frame over a number of others evaluates, one behind the other. -/
def begun (depth : Nat) : List Machine → List ExprId
  | machine :: next :: chain => (machine.begins? depth next).toList ++ begun depth (next :: chain)
  | _ => []

variable {setting : Setting} {machine next : Machine} {depth : Nat}

/-- A machine that follows another one is a state of the program. -/
theorem Attained.follows
    (attained : machine.Attained setting)
    (follows : Follows setting machine next) :
    next.Attained setting := by
  have turned
      (turn : machine.advance setting = .moved next ∨ machine.advance setting = .counted next) :
      next.Attained setting := by
    have advanced := attained.advanced
    obtain turn | turn := turn
    · rwa [turn] at advanced
    · rwa [turn] at advanced
  cases follows with
  | goes goes =>
      cases goes with
      | moved moved => exact turned (.inl moved)
      | counted counted => exact turned (.inr counted)
      | withHost host => exact attained.withHost host
      | closeUnused => exact attained.closeUnused
  | restored saved restores => exact attained.restored _ saved restores

end Machine

namespace Stage

variable {setting : Setting} {site : Site} {depth : Nat} {stage later : Stage}
  {machine next : Machine}

/-- The parts that the frame of a site has not begun to evaluate. -/
def left (parts : List ExprId) : Stage → List ExprId
  | .entered => parts
  | .waiting (.part values) | .handed (.part values) _ => parts.drop (values.length + 1)
  | _ => []

/-- Whatever follows a machine, the stage of a site leads to the next one. -/
theorem At.follows
    (isAt : stage.At setting.tree site depth machine)
    (callable : setting.tree.Callable)
    (attained : machine.Attained setting)
    (unfinished : depth < machine.frames.length)
    (follows : Machine.Follows setting machine next) :
    stage.Leads setting site depth machine next := by
  cases follows with
  | goes goes => exact isAt.goes callable attained.aligned unfinished goes
  | restored saved restores =>
      obtain ⟨frames, incoming⟩ := Machine.restored_frames saved restores
      exact ⟨_, .restored saved restores, isAt.restored frames incoming⟩

end Stage

/-! ## Parts that are begun -/

section Begun

variable {setting : Setting} {site : Site} {depth : Nat} {stage later : Stage}
  {machine next : Machine}

/-- No expression is begun unless there is one frame more than before. -/
theorem Machine.begins?_of_length
    (other : machine.frames.length = depth + 1 → next.frames.length ≠ depth + 2) :
    machine.begins? depth next = none := by
  unfold begins?
  rw [if_neg]
  rintro ⟨frames, nextFrames⟩
  exact other frames nextFrames

/-- A frame that is done begins no expression. -/
theorem Machine.Drops.begins?
    {completion : Completion}
    (drops : machine.Drops next completion)
    (depth : Nat) :
    machine.begins? depth next = none := by
  refine begins?_of_length fun frames => ?_
  rw [drops.1, List.length_tail]
  omega

/-- A frame that enters no expression begins none. -/
theorem Machine.Pushes.begins?
    {child : Frame}
    (pushes : machine.Pushes next child)
    (owns : child.node.ownsActivation = true)
    (depth : Nat) :
    machine.begins? depth next = none := by
  obtain ⟨frame, stay, below, -, -, frames, -⟩ := pushes
  unfold Machine.begins?
  rw [frames]
  split
  · cases isNode : child.node with
    | expression part demand =>
        rw [isNode] at owns
        cases owns
    | _ => simp [isNode]
  · rfl

/-- A saved and restored stage has as much left. -/
theorem Stage.left_renamed
    (number : HeapRef → UInt32)
    (parts : List ExprId)
    (stage : Stage) :
    (stage.renamed number).left parts = stage.left parts := by
  cases stage with
  | entered => rfl
  | waiting wait => cases wait <;> simp [renamed, Wait.renamed, left]
  | handed wait completion => cases wait <;> simp [renamed, Wait.renamed, left]
  | done completion => rfl

/-- What a site has left when it has collected some values. -/
theorem Stage.Collects.left
    {values : List Value}
    (collects : stage.Collects values)
    (parts : List ExprId) :
    stage.left parts = parts.drop values.length := by
  cases collects with
  | entered => rfl
  | handed =>
      rw [List.length_append]
      rfl

/-- A site begins the first of the parts that it has left, or none, unless it is done. -/
theorem Serves.begins?
    (serves : Serves setting site depth (stage, machine) (later, next)) :
    (machine.begins? depth next).toList ++ later.left (site.parts setting.tree) =
        stage.left (site.parts setting.tree) ∨
      machine.begins? depth next = none ∧ ∃ completion, later = .done completion := by
  have stays
      (begins : machine.begins? depth next = none)
      (left : later.left (site.parts setting.tree) = stage.left (site.parts setting.tree)) :
      (machine.begins? depth next).toList ++ later.left (site.parts setting.tree) =
          stage.left (site.parts setting.tree) ∨
        machine.begins? depth next = none ∧ ∃ completion, later = .done completion := by
    rw [begins, left]
    exact .inl rfl
  cases serves with
  | rests rests =>
      refine stays (Machine.begins?_of_length fun frames nextFrames => ?_) rfl
      obtain ⟨host, rfl⟩ | rfl := rests
      · simp only [Machine.withHost] at nextFrames
        omega
      · simp only [Machine.closeUnused] at nextFrames
        omega
  | restored saved restores =>
      have length := (Machine.restored_frames saved restores).1.length_eq
      exact stays (Machine.begins?_of_length fun frames => by omega) (Stage.left_renamed _ _ _)
  | waits covered _ => exact stays (Machine.begins?_of_length fun frames => by omega) rfl
  | @hands wait _ _ _ frames drops _ =>
      refine stays (drops.begins? depth) ?_
      cases wait <;> rfl
  | @begins _ values part _ _ _ frames collects isPart quiet isFrame pushes =>
      obtain ⟨frame, stay, below, isFrames, -, nextFrames, -⟩ := pushes
      have first : machine.begins? depth next = some part := by
        unfold Machine.begins?
        rw [if_pos ⟨frames, by rw [nextFrames]; rw [isFrames] at frames; simpa using frames⟩,
          nextFrames]
        rfl
      rw [first, collects.left]
      obtain ⟨inside, isPart⟩ := List.getElem?_eq_some_iff.mp isPart
      rw [List.drop_eq_getElem_cons inside, isPart]
      exact .inl rfl
  | acts frames collects full acts =>
      have noneLeft : stage.left (site.parts setting.tree) = [] := by
        rw [collects.left, full, List.drop_length]
      cases acts with
      | function accepts enters => exact stays (enters.pushes.begins? rfl depth) noneLeft.symm
      | native calls drops => exact stays (drops.begins? depth) noneLeft.symm
      | method accepts enters => exact stays (enters.pushes.begins? rfl depth) noneLeft.symm
      | nativeMethod calls drops => exact stays (drops.begins? depth) noneLeft.symm
      | new makes => exact stays (makes.pushes.begins? rfl depth) noneLeft.symm
      | fields quiet drops => exact stays (drops.begins? depth) noneLeft.symm
  | constructs frames full constructs =>
      cases constructs with
      | function accepts enters => exact stays (enters.pushes.begins? rfl depth) rfl
      | native calls drops yields => exact stays (drops.begins? depth) rfl
      | nothing quiet drops yields => exact stays (drops.begins? depth) rfl
  | returns frames quiet drops yields => exact stays (drops.begins? depth) rfl
  | fails frames quiet drops => exact .inr ⟨drops.begins? depth, _, rfl⟩
  | refuses frames collects full refuses => exact .inr ⟨refuses.drops.begins? depth, _, rfl⟩
  | refusesConstructor frames refuses => exact stays (refuses.drops.begins? depth) rfl
  | loses frames isFields gone refuses => exact .inr ⟨refuses.drops.begins? depth, _, rfl⟩

/--
From a stage on, every machine is at a stage.  The parts that are left are begun in their order,
and all parts up to the stage are.
-/
theorem Stage.At.serves
    {chain : List Machine}
    (isAt : stage.At setting.tree site depth machine)
    (callable : setting.tree.Callable)
    (attained : machine.Attained setting)
    (links :
      List.IsChain
        (fun machine next => depth < machine.frames.length ∧ Machine.Follows setting machine next)
        (machine :: chain)) :
    ∃ stages : List Stage,
      stages.length = chain.length ∧
        List.IsChain (Serves setting site depth) ((stage, machine) :: stages.zip chain) ∧
        Machine.begun depth (machine :: chain) <+: stage.left (site.parts setting.tree) ∧
        ∀ last ∈ (stage :: stages).getLast?, (∀ completion, last ≠ .done completion) →
          Machine.begun depth (machine :: chain) ++ last.left (site.parts setting.tree) =
            stage.left (site.parts setting.tree) := by
  induction chain generalizing stage machine with
  | nil =>
      refine ⟨[], rfl, .singleton _, List.nil_prefix, ?_⟩
      rintro last ⟨⟩ -
      rfl
  | cons next chain inductionHypothesis =>
      obtain ⟨⟨unfinished, follows⟩, links⟩ := List.isChain_cons_cons.mp links
      obtain ⟨later, serves, isLater⟩ := isAt.follows callable attained unfinished follows
      obtain ⟨stages, length, isChain, begun, isWhole⟩ :=
        inductionHypothesis isLater (attained.follows follows) links
      refine ⟨later :: stages, congrArg (· + 1) length,
        List.isChain_cons_cons.mpr ⟨serves, isChain⟩, ?_⟩
      obtain first | ⟨noneBegun, completion, rfl⟩ := serves.begins?
      · refine ⟨?_, fun last isLast unfinished => ?_⟩
        · rw [← first]
          exact (List.prefix_append_right_inj _).mpr begun
        · rw [List.getLast?_cons_cons] at isLast
          rw [← first, ← isWhole last isLast unfinished, ← List.append_assoc]
          rfl
      · -- Nothing follows a machine in which the frame is done.
        cases chain with
        | nil =>
            cases List.length_eq_zero_iff.mp length
            refine ⟨?_, fun last isLast unfinished => ?_⟩
            · simp [Machine.begun, noneBegun]
            · cases isLast
              exact absurd rfl (unfinished completion)
        | cons further chain =>
            cases isLater with
            | done isDepth =>
                have isOpen := (List.isChain_cons_cons.mp links).1.1
                omega

end Begun

end BotScript
