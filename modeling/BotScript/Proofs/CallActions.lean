import BotScript.Proofs.FieldSetups

namespace BotScript

/-!
# What sites do behind their parts

A stage of a site is a place of its frame.  Whatever the frame does at a stage leads to another
one, of which the frame has the place again.
-/

open Step (Results)

/-! ## Trees -/

/-- What sites rely on: lists can be counted, and functions take the arguments of their calls. -/
structure Tree.Callable (tree : Tree) : Prop where
  countable : tree.Countable
  slotted : tree.Slotted
  meets : ∀ (index : Nat) node, tree.exprs[index]? = some node → tree.Meets node.kind

/-- The function that a site names takes the arguments of the site. -/
def Site.Accepted (tree : Tree) : Site → Prop
  | .call id arguments | .method _ _ (.user id) arguments | .new _ (some (.user id)) arguments =>
      tree.Accepts id arguments
  | _ => True

/-- The arguments of a site can be counted, and its function takes them. -/
theorem Tree.Callable.site
    {tree : Tree}
    {node : Node}
    {site : Site}
    (callable : tree.Callable)
    (isSite : node.site? tree = some site) :
    site.arguments.length < UInt32.size ∧ site.Accepted tree := by
  cases node with
  | expression id demand =>
      obtain ⟨⟨kind, ty, span⟩, found, isKind⟩ := Option.bind_eq_some_iff.mp isSite
      have short := callable.countable.arguments _ _ found
      have meets := callable.meets _ _ found
      cases kind with
      | call => cases isKind; exact ⟨short, meets⟩
      | nativeCall => cases isKind; exact ⟨short, trivial⟩
      | methodCall object slot target arguments =>
          cases isKind
          cases target with
          | user => exact ⟨short, meets⟩
          | native => exact ⟨short, trivial⟩
      | new owner constructor arguments =>
          cases isKind
          rcases constructor with _ | _ | _
          · exact ⟨short, trivial⟩
          · exact ⟨short, meets⟩
          · exact ⟨short, trivial⟩
      | _ => cases isKind
  | fieldSetup owner =>
      cases isSite
      exact ⟨(by decide : 0 < UInt32.size), trivial⟩
  | _ => cases isSite

/-! ## Places of frames -/

/-- The frame of a site is over a number of others, and has come to a stage. -/
inductive Stage.At (tree : Tree) (site : Site) (depth : Nat) (machine : Machine) :
    Stage → Prop where
  | entered
      {frame : Frame}
      {below : List Frame} :
      machine.frames = frame :: below →
      below.length = depth →
      frame.node.site? tree = some site →
      machine.incoming = none →
      frame.state = 0 →
      frame.cursor = 0 →
      frame.values = [] →
      At tree site depth machine .entered
  | waiting
      {wait : Wait}
      {child frame : Frame}
      {below : List Frame}
      (above : List Frame) :
      machine.frames = above ++ child :: frame :: below →
      below.length = depth →
      frame.node.site? tree = some site →
      site.Holds tree wait child.node frame →
      At tree site depth machine (.waiting wait)
  | handed
      {wait : Wait}
      {child : Node}
      {completion : Completion}
      {frame : Frame}
      {below : List Frame} :
      machine.frames = frame :: below →
      below.length = depth →
      frame.node.site? tree = some site →
      site.Holds tree wait child frame →
      machine.incoming = some completion →
      wait.Ends completion →
      At tree site depth machine (.handed wait completion)
  | done
      {completion : Completion} :
      machine.frames.length = depth →
      At tree site depth machine (.done completion)

/-- A step of a site leads to a stage of which the frame has the place. -/
def Stage.Leads
    (setting : Setting) (site : Site) (depth : Nat) (stage : Stage) (machine next : Machine) :
    Prop :=
  ∃ later,
    Serves setting site depth (stage, machine) (later, next) ∧
      later.At setting.tree site depth next

/-- A frame of a site that is about to go on has values for no more parts than there are. -/
theorem Site.Ready.length_le
    {tree : Tree}
    {site : Site}
    {frame : Frame}
    {incoming : Option Completion}
    {values : List Value}
    (ready : site.Ready tree frame incoming values) :
    values.length ≤ (site.parts tree).length := by
  cases ready with
  | entered => exact Nat.zero_le _
  | handed holds =>
      cases holds with
      | part isPart =>
          rw [List.length_append]
          exact (List.getElem?_eq_some_iff.mp isPart).1

namespace Machine

variable {setting : Setting} {site : Site} {machine next : Machine} {frame : Frame}
  {below : List Frame} {ty : Ty} {demand : Demand} {result : Except Interrupt Move}
  {after : Memory} {values : List Value}

/-- A frame that is done leaves as many frames as were below it. -/
theorem Drops.isDone
    {completion : Completion}
    (drops : machine.Drops next completion)
    (runs : Runs setting site machine frame below) :
    (Stage.done completion).At setting.tree site below.length next := by
  refine .done ?_
  rw [drops.1, runs.frames]
  rfl

/-! ## Behind the parts -/

/-- What a site does once all of its parts have values: it acts, or ends with an exception. -/
def Attempts
    (setting : Setting) (site : Site) (depth : Nat) (values : List Value)
    (machine next : Machine) : Prop :=
  (∃ later,
      site.Acts setting machine next values later ∧ later.At setting.tree site depth next) ∨
    ∃ error, machine.Refuses setting next error

/-- A call enters its function. -/
theorem Turns.attempts_call
    {id : FuncId}
    {arguments : List ExprId}
    (turns :
      Turns setting (.call id arguments) machine next frame below ty demand result after)
    (callable : setting.tree.Callable)
    (ready : (Site.call id arguments).Ready setting.tree frame machine.incoming values)
    (full : values.length = arguments.length) :
    Attempts setting (.call id arguments) below.length values machine next := by
  obtain ⟨state, cursor, gathered⟩ := ready.argument fun _ gathers => gathers
  have collects :=
    Step.collect_all gathered (List.getElem?_eq_none (l := arguments) (by omega))
  have step :
      (Site.call id arguments).step setting frame ty demand machine.incoming =
        (do
          let act ← Step.bind setting id none arguments values
          pure (.push { frame with values := [], state := 1 } (.enter (.function id) act))) := by
    simp only [Site.step, Step.call, state, collects]
    rfl
  obtain ⟨act, frames, enters⟩ | refuses :=
    turns.enters callable.slotted (congrArg (·.run.run machine.memory) step)
      (step ▸ .enters _ _ _ _ _) ⟨rfl, rfl⟩ rfl (turns.runs.hostCalls_none rfl)
  · exact .inl ⟨_, .function (callable.site turns.runs.isSite).2 enters,
      .waiting [] frames rfl turns.runs.isSite (.call rfl)⟩
  · exact .inr refuses

/-- A call of a function of the host. -/
theorem Turns.attempts_native
    {id : NativeId}
    {arguments : List ExprId}
    (turns :
      Turns setting (.native id arguments) machine next frame below ty demand result after)
    (ready : (Site.native id arguments).Ready setting.tree frame machine.incoming values)
    (full : values.length = arguments.length) :
    Attempts setting (.native id arguments) below.length values machine next := by
  obtain ⟨state, cursor, gathered⟩ := ready.argument fun _ gathers => gathers
  have collects :=
    Step.collect_all gathered (List.getElem?_eq_none (l := arguments) (by omega))
  have step :
      (Site.native id arguments).step setting frame ty demand machine.incoming =
        (do
          let value ← Step.callNative setting id none arguments values
          Step.produce value ty demand) := by
    simp only [Site.step, Step.nativeCall, collects]
    rfl
  have call :
      (Site.native id arguments).hostCall setting.tree frame machine.incoming =
        (do
          let types ← arguments.mapM (Step.typeOf setting.tree)
          pure (some ⟨id, none, values, types⟩)) := by
    simp only [Site.hostCall, collects]
    rfl
  obtain ⟨calls, completion, drops, -⟩ := turns.callsHost step call
  exact .inl ⟨_, .native calls drops, drops.isDone turns.runs⟩

section Methods

variable {object : ExprId} {slot : Option MethodSlot} {target : MethodImpl}
  {arguments : List ExprId} {this : ObjectId}

/-- A method of the program enters the function of the class of its receiver. -/
theorem Turns.attempts_user
    {declared : FuncId}
    (turns :
      Turns setting (.method object slot (.user declared) arguments) machine next frame below ty
        demand result after)
    (callable : setting.tree.Callable)
    (step :
      (Site.method object slot (.user declared) arguments).step setting frame ty demand
          machine.incoming =
        Step.invoke setting { frame with values := .object this :: values } slot (.user declared)
          arguments ty demand) :
    Attempts setting (.method object slot (.user declared) arguments) below.length
      (.object this :: values) machine next := by
  simp only [Step.invoke, List.head?_cons, Step.receiver, pure_bind, List.drop_succ_cons,
    List.drop_zero] at step
  have dispatches :
      ((Site.method object slot (.user declared) arguments).step setting frame ty demand
          machine.incoming).run.run machine.memory =
        (do
          let act ← Step.bind setting (machine.dispatched setting this slot declared)
            (some this) arguments values
          pure (.push { frame with values := [], state := 2 }
            (.enter (.function (machine.dispatched setting this slot declared)) act))
          : Step Move).run.run machine.memory := by
    rw [step, Results.heap.run_bind]
    rfl
  have throws :
      Step.Throws
        ((Site.method object slot (.user declared) arguments).step setting frame ty demand
          machine.incoming) := by
    rw [step]
    exact .behind (fun _ _ => .heap) fun heap => .enters _ _ _ _ _
  obtain ⟨act, frames, enters⟩ | refuses :=
    turns.enters callable.slotted dispatches throws ⟨rfl, rfl⟩ rfl (turns.runs.hostCalls_none rfl)
  · exact .inl ⟨_, .method (callable.site turns.runs.isSite).2 enters,
      .waiting [] frames rfl turns.runs.isSite (.method rfl)⟩
  · exact .inr refuses

/-- A method of the host is called with its receiver. -/
theorem Turns.attempts_host
    {id : NativeId}
    (turns :
      Turns setting (.method object slot (.native id) arguments) machine next frame below ty
        demand result after)
    (state : frame.state = 1)
    (collects :
      Step.collect frame arguments machine.incoming =
        pure ({ frame with values := .object this :: values }, none))
    (step :
      (Site.method object slot (.native id) arguments).step setting frame ty demand
          machine.incoming =
        Step.invoke setting { frame with values := .object this :: values } slot (.native id)
          arguments ty demand) :
    Attempts setting (.method object slot (.native id) arguments) below.length
      (.object this :: values) machine next := by
  simp only [Step.invoke, List.head?_cons, Step.receiver, pure_bind, List.drop_succ_cons,
    List.drop_zero] at step
  have call :
      (Site.method object slot (.native id) arguments).hostCall setting.tree frame
          machine.incoming =
        (do
          let types ← arguments.mapM (Step.typeOf setting.tree)
          pure (some ⟨id, some this, values, types⟩)) := by
    simp only [Site.hostCall, state, ↓reduceIte, collects, pure_bind, List.head?_cons,
      Step.receiver, List.drop_succ_cons, List.drop_zero]
  obtain ⟨calls, completion, drops, -⟩ := turns.callsHost step call
  exact .inl ⟨_, .nativeMethod calls drops, drops.isDone turns.runs⟩

/-- A call of a method without an instance ends with an exception. -/
theorem Turns.attempts_nothing
    {code : ErrorCode}
    (turns :
      Turns setting (.method object slot target arguments) machine next frame below ty demand
        result after)
    (state : frame.state = 1)
    (collects :
      Step.collect frame arguments machine.incoming = pure ({ frame with values }, none))
    (step :
      (Site.method object slot target arguments).step setting frame ty demand machine.incoming =
        Step.invoke setting { frame with values } slot target arguments ty demand)
    (raises : Step.receiver values.head? = Step.raise code) :
    Attempts setting (.method object slot target arguments) below.length values machine next := by
  have stops :
      (Site.method object slot target arguments).step setting frame ty demand machine.incoming =
        Step.raise code := by
    rw [step, Step.invoke, raises]
    rfl
  have calls : machine.hostCalls setting = [] := by
    cases target with
    | user declared => exact turns.runs.hostCalls_none rfl
    | native id =>
        have taken :
            Results machine.memory
              ((Site.method object slot (.native id) arguments).hostCall setting.tree frame
                machine.incoming) (.error (.fault (.error code))) machine.memory := by
          simp only [Site.hostCall, state, ↓reduceIte, collects, pure_bind, raises]
          rfl
        exact turns.runs.hostCalls_error taken
  have taken := turns.taken
  rw [stops] at taken
  cases taken
  exact .inr (turns.refuses (stops ▸ Step.Gives.raise code) calls)

/-- A call of a method with all of its values. -/
theorem Turns.attempts_method
    (turns :
      Turns setting (.method object slot target arguments) machine next frame below ty demand
        result after)
    (callable : setting.tree.Callable)
    (ready :
      (Site.method object slot target arguments).Ready setting.tree frame machine.incoming values)
    (full : values.length = arguments.length + 1) :
    Attempts setting (.method object slot target arguments) below.length values machine next := by
  obtain ⟨-, -, rfl, -⟩ | ⟨state, cursor, gathered⟩ := ready.methodArgument
  · cases full
  have collects :=
    Step.collect_all gathered (List.getElem?_eq_none (l := arguments) (by omega))
  have step :
      (Site.method object slot target arguments).step setting frame ty demand machine.incoming =
        Step.invoke setting { frame with values } slot target arguments ty demand := by
    simp only [Site.step, Step.methodCall, state, collects]
    rfl
  obtain ⟨this, isThis, -⟩ | ⟨code, raises⟩ := Step.receiver_or_raise values.head?
  · obtain ⟨rest, rfl⟩ := List.head?_eq_some_iff.mp isThis
    cases target with
    | user declared => exact turns.attempts_user callable step
    | native id => exact turns.attempts_host state collects step
  · exact turns.attempts_nothing state collects step raises

end Methods

/-- A new instance is made once the arguments of its constructor have values. -/
theorem Turns.attempts_new
    {owner : ClassId}
    {constructor : Option MethodImpl}
    {arguments : List ExprId}
    (turns :
      Turns setting (.new owner constructor arguments) machine next frame below ty demand
        result after)
    (ready :
      (Site.new owner constructor arguments).Ready setting.tree frame machine.incoming values)
    (full : values.length = arguments.length) :
    Attempts setting (.new owner constructor arguments) below.length values machine next := by
  obtain ⟨state, cursor, gathered⟩ := ready.argument fun _ gathers => gathers
  have collects :=
    Step.collect_all gathered (List.getElem?_eq_none (l := arguments) (by omega))
  have program : (Site.new owner constructor arguments).callsHost frame = false := by
    rcases constructor with _ | _ | _ <;> simp [Site.callsHost, state]
  have call :
      (Site.new owner constructor arguments).hostCall setting.tree frame machine.incoming =
        pure none := by
    rcases constructor with _ | _ | _ <;> simp [Site.hostCall, state]
  have step :
      (Site.new owner constructor arguments).step setting frame ty demand machine.incoming =
        (do
          let layout ← Step.require .notAClass (setting.tree.layout? owner)
          let object ← Step.allocate fun heap => heap.newInstance layout
          let act ← Step.pushActivation setting (.bare (some object))
          pure (.push { frame with values := values ++ [.object object], state := 1 }
            (.enter (.fieldSetup owner) act))) := by
    simp only [Site.step, Step.newInstance, state, collects]
    rfl
  obtain ⟨act, object, frames, makes⟩ | refuses :=
    turns.makes step program (turns.runs.hostCalls_none call)
  · exact .inl ⟨_, .new makes,
      .waiting [] frames rfl turns.runs.isSite (.fields full rfl rfl)⟩
  · exact .inr refuses

/-! ## Behind the fields of a new instance -/

section Constructors

variable {owner : ClassId} {constructor : Option MethodImpl} {arguments : List ExprId}
  {object : ObjectId}

/-- What a new instance does once its fields are set up: its constructor, if there is one. -/
def Concludes
    (setting : Setting) (site : Site) (depth : Nat) (values : List Value) (object : ObjectId)
    (machine next : Machine) : Prop :=
  (∃ later,
      site.Constructs setting machine next values object later ∧
        later.At setting.tree site depth next) ∨
    ∃ error, machine.Refuses setting next error

/-- An instance whose fields are set up goes on with its constructor. -/
theorem newInstance_constructs
    (state : frame.state = 1)
    (isValues : frame.values = values ++ [.object object])
    (ty : Ty)
    (demand : Demand) :
    (Site.new owner constructor arguments).step setting frame ty demand (some .normal) =
      Step.construct setting { frame with values := values ++ [.object object] } constructor
        arguments ty demand := by
  simp only [Site.step, Step.newInstance, state, ← isValues]
  rfl

/-- A constructor of the program is entered, with the new instance. -/
theorem Turns.concludes_user
    {id : FuncId}
    (turns :
      Turns setting (.new owner (some (.user id)) arguments) machine next frame below ty demand
        result after)
    (callable : setting.tree.Callable)
    (step :
      (Site.new owner (some (.user id)) arguments).step setting frame ty demand machine.incoming =
        Step.construct setting { frame with values := values ++ [.object object] }
          (some (.user id)) arguments ty demand) :
    Concludes setting (.new owner (some (.user id)) arguments) below.length values object machine
      next := by
  simp only [Step.construct, List.getLast?_append, List.getLast?_singleton, Option.some_or,
    Step.require, Step.receiver, pure_bind, List.dropLast_concat] at step
  obtain ⟨act, frames, enters⟩ | refuses :=
    turns.enters callable.slotted (congrArg (·.run.run machine.memory) step)
      (step ▸ .enters _ _ _ _ _) ⟨rfl, rfl⟩ rfl (turns.runs.hostCalls_none rfl)
  · exact .inl ⟨_, .function (callable.site turns.runs.isSite).2 enters,
      .waiting [] frames rfl turns.runs.isSite (.constructor rfl rfl)⟩
  · exact .inr refuses

/-- A constructor of the host is called with the new instance. -/
theorem Turns.concludes_native
    {id : NativeId}
    (turns :
      Turns setting (.new owner (some (.native id)) arguments) machine next frame below ty demand
        result after)
    (state : frame.state = 1)
    (isValues : frame.values = values ++ [.object object])
    (isIncoming : machine.incoming = some .normal)
    (step :
      (Site.new owner (some (.native id)) arguments).step setting frame ty demand
          machine.incoming =
        Step.construct setting { frame with values := values ++ [.object object] }
          (some (.native id)) arguments ty demand) :
    Concludes setting (.new owner (some (.native id)) arguments) below.length values object machine
      next := by
  simp only [Step.construct, List.getLast?_append, List.getLast?_singleton, Option.some_or,
    Step.require, Step.receiver, pure_bind, List.dropLast_concat] at step
  have call :
      (Site.new owner (some (.native id)) arguments).hostCall setting.tree frame
          machine.incoming =
        (do
          let types ← arguments.mapM (Step.typeOf setting.tree)
          pure (some ⟨id, some object, values, types⟩)) := by
    simp only [Site.hostCall, state, ↓reduceIte, isIncoming, isValues, List.getLast?_append,
      List.getLast?_singleton, Option.some_or, Step.require, Step.receiver, pure_bind,
      List.dropLast_concat]
    rfl
  obtain ⟨calls, completion, drops, ends⟩ :=
    turns.callsHost step call
  refine .inl ⟨_, .native calls drops (ends.imp_right ?_), drops.isDone turns.runs⟩
  rintro ⟨-, yields⟩
  exact yields

/-- An instance without a constructor is delivered. -/
theorem Turns.concludes_plain
    (turns :
      Turns setting (.new owner none arguments) machine next frame below ty demand result after)
    (step :
      (Site.new owner none arguments).step setting frame ty demand machine.incoming =
        Step.construct setting { frame with values := values ++ [.object object] } none
          arguments ty demand) :
    Concludes setting (.new owner none arguments) below.length values object machine next := by
  simp only [Step.construct, List.getLast?_append, List.getLast?_singleton, Option.some_or,
    Step.require, Step.receiver, pure_bind] at step
  obtain ⟨quiet, completion, drops, yields⟩ :=
    turns.produces step (turns.runs.hostCalls_none rfl)
  exact .inl ⟨_, .nothing quiet drops yields, drops.isDone turns.runs⟩

/-- A new instance goes on once its fields are set up. -/
theorem Turns.concludes
    (turns : Turns setting site machine next frame below ty demand result after)
    (callable : setting.tree.Callable)
    {child : Node}
    (holds : site.Holds setting.tree (.fields values object) child frame)
    (isIncoming : machine.incoming = some .normal) :
    values.length = (site.parts setting.tree).length ∧
      Concludes setting site below.length values object machine next := by
  cases holds with
  | @fields owner constructor arguments _ _ _ full state isValues =>
      refine ⟨full, ?_⟩
      have step :
          (Site.new owner constructor arguments).step setting frame ty demand (some .normal) =
            Step.construct setting { frame with values := values ++ [.object object] }
              constructor arguments ty demand :=
        newInstance_constructs state isValues ty demand
      rcases constructor with _ | id | id
      · exact turns.concludes_plain (isIncoming ▸ step)
      · exact turns.concludes_user callable (isIncoming ▸ step)
      · exact turns.concludes_native state isValues isIncoming (isIncoming ▸ step)

end Constructors

/-! ## Fields of an instance -/

section Fields

variable {owner : ClassId} {stage : Stage}

/-- A site ends with an exception while it collects the values of its parts. -/
theorem Refuses.leads
    {error : RuntimeError}
    (refuses : machine.Refuses setting next error)
    (runs : Runs setting site machine frame below)
    (collects : stage.Collects values)
    (full : values.length = (site.parts setting.tree).length ∨ site.isFields = true) :
    stage.Leads setting site below.length machine next :=
  ⟨_, .refuses runs.length collects full refuses, refuses.drops.isDone runs⟩

/-- The fields that are left are gone through up to the next one with an initial value. -/
theorem Turns.goesThrough
    {between : Memory}
    {this : ObjectId}
    {other : Frame}
    {rest : List FieldDef}
    {move : Move}
    (passed : List FieldDef)
    (turns : Turns setting (.fields owner) machine next frame below ty demand (.ok move) after)
    (collects : stage.Collects values)
    (short : (setting.tree.instanceFields owner).length < UInt32.size)
    (stays : other.Stays frame)
    (fields : (setting.tree.instanceFields owner).map (·.2) = passed ++ rest)
    (cursor : other.cursor.toNat = passed.length)
    (counted : (passed.filterMap (·.initial)).length = values.length)
    (objects :
      between.world.heap.objects = (Machine.readyMemory setting machine frame).world.heap.objects)
    (taken : Results between (Step.setupFrom this other rest) (.ok move) after) :
    stage.Leads setting (.fields owner) below.length machine next := by
  have calls := turns.runs.hostCalls_none rfl
  have length := congrArg List.length fields
  rw [List.length_map, List.length_append] at length
  obtain ⟨same, ⟨rfl, noneLeft⟩ | ⟨skipped, field, behind, initial, place, rfl, plain, isInitial,
    isPlace, rfl⟩⟩ := Step.setupFrom_ok (by omega) taken
  · have full : values.length = ((Site.fields owner).parts setting.tree).length := by
      rw [Site.parts_fields, fields, List.filterMap_append, noneLeft, List.append_nil, counted]
    have quiet : machine.Quiet setting next :=
      turns.quiet (fun _ _ pushed => by cases pushed) (by rw [same, objects]) calls
    obtain ⟨frames, handed, -⟩ := turns.reaches
    have drops := turns.runs.drops frames handed
    exact ⟨_, .acts turns.runs.length collects full (.fields quiet drops),
      drops.isDone turns.runs⟩
  · have isNext : ((Site.fields owner).parts setting.tree)[values.length]? = some initial := by
      rw [Site.parts_fields, fields, List.filterMap_append, List.filterMap_append, plain,
        List.nil_append, List.filterMap_cons_some isInitial, ← counted]
      simp
    have quiet : machine.Quiet setting next :=
      turns.quiet (fun _ _ pushed => by cases pushed; rfl) (by rw [same, objects]) calls
    obtain ⟨frames, handed, -⟩ := turns.reaches
    have begun : (Site.fields owner).Gathers setting.tree values
        { other with state := 1, cursor := place } := by
      refine ⟨rfl, passed ++ skipped, field, behind, ?_, by rw [isInitial]; rfl, ?_, ?_⟩
      · rw [fields, List.append_assoc]
      · rw [isPlace, cursor, List.length_append]
      · rw [List.filterMap_append, plain, List.append_nil, counted]
    refine ⟨_, .begins turns.runs.length collects isNext quiet turns.runs.head? ?_,
      .waiting [] frames rfl ?_ (.part isNext begun)⟩
    · refine ⟨frame, { other with state := 1, cursor := place }, below, turns.runs.frames, stays,
        ?_, handed⟩
      rw [← stays.2]
      exact frames
    · exact stays.1 ▸ turns.runs.isSite

/-- Errors of the fields of an instance are exceptions. -/
theorem fieldSetup_throws
    {incoming : Option Completion}
    (delivered : incoming = none ∨ ∃ value, incoming = some (.value value)) :
    Step.Throws (Step.fieldSetup setting frame owner incoming) := by
  have handsOn (node : Node) : Step.HandsOn node incoming := by
    rintro completion rfl abrupt
    obtain isNone | ⟨value, isValue⟩ := delivered
    · cases isNone
    · cases isValue
      cases abrupt
  refine .behind (fun _ _ => .part _) fun entry => ?_
  refine .behind (fun _ _ => (Step.Retains.activationOf frame).weaken) fun activation => ?_
  refine .behind (fun _ _ => .require _ _) fun this => ?_
  split
  · exact .behind (fun _ _ => .valueOf (handsOn _)) fun value =>
      .behind (fun _ _ => .storeField _ _ _ _) fun _ => .setupFrom _ _ _
  · exact .behind (fun _ _ => .settle (handsOn _)) fun _ => .setupFrom _ _ _

/-- A step of fields has the class of the instance and the instance. -/
theorem fieldSetup_ok
    {incoming : Option Completion}
    {before after : Memory}
    {move : Move}
    (taken : Results before (Step.fieldSetup setting frame owner incoming) (.ok move) after) :
    ∃ entry this,
      setting.tree.class? owner = some entry ∧
        (frame.state = 0 → incoming = none →
          Results before
            (Step.setupFrom this frame
              (((setting.tree.instanceFields owner).map (·.2)).drop frame.cursor.toNat))
            (.ok move) after) ∧
        (frame.state = 1 → ∀ value, incoming = some (.value value) → ∃ between,
          between.world.heap.objects = before.world.heap.objects ∧
            Results between
              (Step.setupFrom this { frame with cursor := frame.cursor + 1, state := 0 }
                (((setting.tree.instanceFields owner).map (·.2)).drop (frame.cursor + 1).toNat))
              (.ok move) after) := by
  obtain ⟨entry, isClass, finding⟩ := Results.part_bind taken
  obtain ⟨activation, _, isActivation, choosing⟩ := Results.bind_ok finding
  obtain ⟨_, _, current, required⟩ := Results.bind_ok isActivation
  cases current
  obtain ⟨-, rfl⟩ := Results.require_ok required
  obtain ⟨this, -, steps⟩ := Results.require_bind choosing
  refine ⟨entry, this, isClass, ?_, ?_⟩
  · rintro state rfl
    rw [state] at steps
    exact steps
  · rintro state value rfl
    rw [state] at steps
    simp only [Step.valueOf, pure_bind] at steps
    obtain ⟨_, between, stored, rest⟩ := Results.bind_ok steps
    exact ⟨between, Step.storeField_objects stored, rest⟩

/-- A frame of fields that is about to go on evaluates the next initial value, or is done. -/
theorem Turns.setsUp
    (turns : Turns setting (.fields owner) machine next frame below ty demand result after)
    (callable : setting.tree.Callable)
    (ready : (Site.fields owner).Ready setting.tree frame machine.incoming values)
    (collects : stage.Collects values) :
    stage.Leads setting (.fields owner) below.length machine next := by
  have delivered :
      machine.incoming = none ∨ ∃ value, machine.incoming = some (.value value) := by
    generalize machine.incoming = incoming at ready
    cases ready with
    | entered => exact .inl rfl
    | handed => exact .inr ⟨_, rfl⟩
  cases result with
  | error interrupt =>
      obtain ⟨error, refuses⟩ :=
        turns.refuses (fieldSetup_throws delivered) (turns.runs.hostCalls_none rfl)
      exact refuses.leads turns.runs collects (.inr rfl)
  | ok move =>
      obtain ⟨entry, this, isClass, enters, stores⟩ := fieldSetup_ok turns.taken
      have short := callable.countable.fields owner entry isClass
      generalize isIncoming : machine.incoming = incoming at ready enters stores
      cases ready with
      | entered state cursor empty =>
          have taken := enters state rfl
          rw [cursor] at taken
          exact turns.goesThrough [] collects short ⟨rfl, rfl⟩ rfl (by rw [cursor]; rfl) rfl rfl
            taken
      | handed holds =>
          cases holds with
          | @part _ front _ _ isPart gathers =>
              obtain ⟨state, passed, field, behind, fields, isInitial, cursor, counted⟩ := gathers
              obtain ⟨between, objects, taken⟩ := stores state _ rfl
              have length := congrArg List.length fields
              rw [List.length_map, List.length_append, List.length_cons] at length
              have later : (frame.cursor + 1).toNat = (passed ++ [field]).length := by
                rw [UInt32.toNat_succ_of_lt (Nat.lt_succ_self _) (by omega), cursor]
                simp
              obtain ⟨initial, isInitial⟩ := Option.isSome_iff_exists.mp isInitial
              rw [fields, List.append_cons, later, List.drop_left] at taken
              have stays :
                  ({ frame with cursor := frame.cursor + 1, state := 0 } : Frame).Stays frame :=
                ⟨rfl, rfl⟩
              refine turns.goesThrough (passed ++ [field]) collects short stays ?_ later ?_
                objects taken
              · rw [fields, List.append_cons]
              · simp [isInitial, counted]

end Fields

/-! ## Parts that have values -/

section Collects

variable {stage : Stage}

/-- What a site does behind its parts leads to a stage. -/
theorem Attempts.leads
    (attempts : Attempts setting site below.length values machine next)
    (runs : Runs setting site machine frame below)
    (collects : stage.Collects values)
    (full : values.length = (site.parts setting.tree).length) :
    stage.Leads setting site below.length machine next := by
  obtain ⟨later, acts, isLater⟩ | ⟨error, refuses⟩ := attempts
  · exact ⟨later, .acts runs.length collects full acts, isLater⟩
  · exact refuses.leads runs collects (.inl full)

/-- A site with values for some of its parts evaluates the next part, or goes on behind all. -/
theorem Turns.proceeds
    (turns : Turns setting site machine next frame below ty demand result after)
    (callable : setting.tree.Callable)
    (ready : site.Ready setting.tree frame machine.incoming values)
    (collects : stage.Collects values) :
    stage.Leads setting site below.length machine next := by
  cases isFields : site.isFields with
  | true =>
      cases site with
      | fields owner => exact turns.setsUp callable ready collects
      | _ => cases isFields
  | false =>
      cases isNext : (site.parts setting.tree)[values.length]? with
      | some part =>
          obtain ⟨stay, steps, stays, holds⟩ :=
            ready.begins isFields (callable.site turns.runs.isSite).1 isNext
          obtain ⟨quiet, pushes, frames⟩ :=
            turns.begins (steps.step ty demand) stays (turns.runs.hostCalls_none steps.hostCall)
          exact ⟨_, .begins turns.runs.length collects isNext quiet turns.runs.head? pushes,
            .waiting [] frames rfl (stays.1 ▸ turns.runs.isSite) holds⟩
      | none =>
          have full : values.length = (site.parts setting.tree).length :=
            Nat.le_antisymm ready.length_le (List.getElem?_eq_none_iff.mp isNext)
          cases site with
          | call id arguments =>
              exact (turns.attempts_call callable ready full).leads turns.runs collects full
          | native id arguments =>
              exact (turns.attempts_native ready full).leads turns.runs collects full
          | method object slot target arguments =>
              exact (turns.attempts_method callable ready full).leads turns.runs collects full
          | new owner constructor arguments =>
              exact (turns.attempts_new ready full).leads turns.runs collects full
          | fields owner => cases isFields

end Collects

end Machine

end BotScript
