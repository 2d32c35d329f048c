import BotScript.Proofs.CallBindings
import BotScript.Proofs.RestoredFrames
import BotScript.Proofs.Trace

namespace BotScript

/-!
# Stages of calls

A call evaluates its receiver and its arguments, a new instance its arguments, and its fields
their initial values.  These are the parts of a site.  They are evaluated one behind the other on
top of the frame of the site, and only then the site goes on: it enters a function, calls the
host, or makes an instance.  This module says what each step of such a frame may be; which step
follows which is told by the stage that the frame has reached.
-/

/-! ## Sites -/

/-- What has parts that are evaluated in order: a call, a new instance, or the fields of one. -/
inductive Site where
  | call (function : FuncId) (arguments : List ExprId)
  | native (native : NativeId) (arguments : List ExprId)
  | method
      (object : ExprId) (slot : Option MethodSlot) (target : MethodImpl) (arguments : List ExprId)
  | new (owner : ClassId) (constructor : Option MethodImpl) (arguments : List ExprId)
  | fields (owner : ClassId)
  deriving DecidableEq

namespace Site

/--
The parts of a site in the order of their evaluation: the receiver in front of the arguments, and
the initial values of the fields of all classes, base class first, in order of declaration.
-/
def parts (tree : Tree) : Site → List ExprId
  | .call _ arguments | .native _ arguments | .new _ _ arguments => arguments
  | .method object _ _ arguments => object :: arguments
  | .fields owner =>
      (tree.classChain owner).reverse.flatMap fun level =>
        (tree.classDef level).fields.filterMap (·.initial)

/-- The arguments of a call or of a new instance. -/
def arguments : Site → List ExprId
  | .call _ arguments | .native _ arguments | .method _ _ _ arguments | .new _ _ arguments =>
      arguments
  | .fields _ => []

/-- Whether a site consists of the fields of an instance. -/
def isFields : Site → Bool
  | .fields _ => true
  | _ => false

end Site

/-- The site of an expression: calls and new instances are sites. -/
def ExprKind.site? : ExprKind → Option Site
  | .call function arguments => some (.call function arguments)
  | .nativeCall native arguments => some (.native native arguments)
  | .methodCall object slot target arguments => some (.method object slot target arguments)
  | .new owner constructor arguments => some (.new owner constructor arguments)
  | _ => none

/-- The site that the frames of a node evaluate, if it is one. -/
def Node.site? (tree : Tree) : Node → Option Site
  | .expression id _ => (tree.expr? id).bind fun node => node.kind.site?
  | .fieldSetup owner => some (.fields owner)
  | _ => none

/-! ## Stages -/

/-- What the frame of a site waits for. -/
inductive Wait where
  /-- The next part, behind parts with these values. -/
  | part (values : List Value)
  /-- The fields of a new instance; all parts have values. -/
  | fields (values : List Value) (object : ObjectId)
  /-- The function that is called, for the sake of a new instance if there is one. -/
  | function (made : Option ObjectId)
  deriving DecidableEq

/-- How far the frame of a site has come. -/
inductive Stage where
  | entered
  /-- Another frame runs on top of the frame. -/
  | waiting (wait : Wait)
  /-- The frame on top is done. -/
  | handed (wait : Wait) (completion : Completion)
  | done (completion : Completion)
  deriving DecidableEq

/-- What a frame has collected, once it has been saved under some numbers and restored. -/
def Wait.renamed (number : HeapRef → UInt32) : Wait → Wait
  | .part values => .part (values.map (.renamed number))
  | .fields values object => .fields (values.map (.renamed number)) (object.renamed number)
  | .function made => .function (made.map (.renamed number))

/-- The stage of a frame that has been saved under some numbers and restored. -/
def Stage.renamed (number : HeapRef → UInt32) : Stage → Stage
  | .entered => .entered
  | .waiting wait => .waiting (wait.renamed number)
  | .handed wait completion => .handed (wait.renamed number) (completion.renamed number)
  | .done completion => .done (completion.renamed number)

/-- What a frame waits for can end with a completion: parts and functions end with values. -/
def Wait.Ends : Wait → Completion → Prop
  | _, .thrown _ => True
  | .part _, .value _ => True
  | .function _, .value _ => True
  | .fields _ _, .normal => True
  | _, _ => False

/-- The values of the parts so far, of which the last one has just been delivered. -/
inductive Stage.Collects : Stage → List Value → Prop where
  | entered : Collects .entered []
  | handed
      {values : List Value}
      {value : Value} :
      Collects (.handed (.part values) (.value value)) (values ++ [value])

/-! ## Steps of machines -/

/-- A completion delivers a value, or a cell that holds it. -/
def Completion.Yields (heap : Heap) (result : Value) : Completion → Prop
  | .value found => found = result
  | .place cell => (heap.cell cell).value = result
  | _ => False

namespace Machine

/-- A frame is pushed on top of the innermost one, which stays. -/
def Pushes (machine next : Machine) (child : Frame) : Prop :=
  ∃ frame stay below,
    machine.frames = frame :: below ∧
      stay.Stays frame ∧
      next.frames = child :: stay :: below ∧
      next.incoming = none

/-- The innermost frame is done. -/
def Drops (machine next : Machine) (completion : Completion) : Prop :=
  next.frames = machine.frames.tail ∧ next.incoming = some completion

/-- No function is entered, nothing of the host is called, and no instance is made. -/
structure Quiet (setting : Setting) (machine next : Machine) : Prop where
  calls : machine.hostCalls setting = []
  activations : next.memory.activations.size ≤ machine.memory.activations.size
  objects : next.memory.world.heap.objects.size = machine.memory.world.heap.objects.size

/--
A function is entered: its activation is added and its frame is pushed.  Parameters hold the
arguments at their positions, each in a new cell.
-/
structure Enters
    (setting : Setting) (machine next : Machine) (id : FuncId) (this : Option ObjectId)
    (arguments : List ExprId) (values : List Value) : Prop where
  calls : machine.hostCalls setting = []
  pushes :
    machine.Pushes next (.enter (.function id) (UInt32.ofNat machine.memory.activations.size))
  bound :
    ∃ function locals,
      setting.tree.function? id = some function ∧
        next.memory.activations = machine.memory.activations.push ⟨some id, this, locals⟩ ∧
        machine.memory.world.heap.Grows next.memory.world.heap ∧
        ∀ (index : Nat) param argument value,
          function.params[index]? = some param → arguments[index]? = some argument →
            values[index]? = some value →
            Heap.Binds setting.tree machine.memory.world.heap next.memory.world.heap locals
              param argument value

/-- A function of the host is called, once; it sees the values and static types of arguments. -/
structure CallsHost
    (setting : Setting) (machine next : Machine) (native : NativeId) (this : Option ObjectId)
    (arguments : List ExprId) (values : List Value) : Prop where
  calls :
    machine.hostCalls setting =
      [⟨native, this, values, arguments.map fun argument => (setting.tree.expr argument).ty⟩]
  activations : next.memory.activations.size ≤ machine.memory.activations.size

/-- An instance of a class is made, and its fields are going to be set up. -/
structure Makes
    (setting : Setting) (machine next : Machine) (owner : ClassId) (object : ObjectId) : Prop where
  calls : machine.hostCalls setting = []
  fresh : object.index = machine.memory.world.heap.objects.size
  objects : next.memory.world.heap.objects.size = machine.memory.world.heap.objects.size + 1
  layout : (next.memory.world.heap.object object).layout.id = owner
  activations :
    next.memory.activations = machine.memory.activations.push (.bare (some object))
  pushes :
    machine.Pushes next
      (.enter (.fieldSetup owner) (UInt32.ofNat machine.memory.activations.size))

/-- The function that a method call with a receiver enters. -/
def dispatched
    (setting : Setting) (machine : Machine) (this : ObjectId) (slot : Option MethodSlot)
    (declared : FuncId) : FuncId :=
  (setting.tree.dispatch? (machine.memory.world.heap.object this).layout.id slot).getD declared

/-- The instance of the activation that the innermost frame uses. -/
def instance? (machine : Machine) : Option ObjectId := do
  let frame ← machine.frames.head?
  let activation ← machine.memory.activations[frame.act.toNat]?
  activation.this

end Machine

/-! ## Steps of sites -/

section Steps

variable (setting : Setting) (machine next : Machine)

/-- What a site does once all of its parts have values, and the stage that this leads to. -/
inductive Site.Acts : Site → List Value → Stage → Prop where
  | function
      {id : FuncId}
      {arguments : List ExprId}
      {values : List Value} :
      setting.tree.Accepts id arguments →
      machine.Enters setting next id none arguments values →
      Acts (.call id arguments) values (.waiting (.function none))
  | native
      {id : NativeId}
      {arguments : List ExprId}
      {values : List Value}
      {completion : Completion} :
      machine.CallsHost setting next id none arguments values →
      machine.Drops next completion →
      Acts (.native id arguments) values (.done completion)
  | method
      {object : ExprId}
      {slot : Option MethodSlot}
      {declared : FuncId}
      {arguments : List ExprId}
      {this : ObjectId}
      {values : List Value} :
      setting.tree.Accepts declared arguments →
      machine.Enters setting next (machine.dispatched setting this slot declared) (some this)
        arguments values →
      Acts (.method object slot (.user declared) arguments) (.object this :: values)
        (.waiting (.function none))
  | nativeMethod
      {object : ExprId}
      {slot : Option MethodSlot}
      {id : NativeId}
      {arguments : List ExprId}
      {this : ObjectId}
      {values : List Value}
      {completion : Completion} :
      machine.CallsHost setting next id (some this) arguments values →
      machine.Drops next completion →
      Acts (.method object slot (.native id) arguments) (.object this :: values)
        (.done completion)
  | new
      {owner : ClassId}
      {constructor : Option MethodImpl}
      {arguments : List ExprId}
      {values : List Value}
      {object : ObjectId} :
      machine.Makes setting next owner object →
      Acts (.new owner constructor arguments) values (.waiting (.fields values object))
  | fields
      {owner : ClassId}
      {values : List Value} :
      machine.Quiet setting next →
      machine.Drops next .normal →
      Acts (.fields owner) values (.done .normal)

/-- What a site does once the fields of its new instance are set up. -/
inductive Site.Constructs : Site → List Value → ObjectId → Stage → Prop where
  | function
      {owner : ClassId}
      {id : FuncId}
      {arguments : List ExprId}
      {values : List Value}
      {object : ObjectId} :
      setting.tree.Accepts id arguments →
      machine.Enters setting next id (some object) arguments values →
      Constructs (.new owner (some (.user id)) arguments) values object
        (.waiting (.function (some object)))
  | native
      {owner : ClassId}
      {id : NativeId}
      {arguments : List ExprId}
      {values : List Value}
      {object : ObjectId}
      {completion : Completion} :
      machine.CallsHost setting next id (some object) arguments values →
      machine.Drops next completion →
      (∃ error, completion = .thrown error) ∨
        completion.Yields next.memory.world.heap (.object object) →
      Constructs (.new owner (some (.native id)) arguments) values object (.done completion)
  | nothing
      {owner : ClassId}
      {arguments : List ExprId}
      {values : List Value}
      {object : ObjectId}
      {completion : Completion} :
      machine.Quiet setting next →
      machine.Drops next completion →
      completion.Yields next.memory.world.heap (.object object) →
      Constructs (.new owner none arguments) values object (.done completion)

end Steps

/-- The error of a site itself, in front of whatever it would have called. -/
structure Machine.Refuses
    (setting : Setting) (machine next : Machine) (error : RuntimeError) : Prop where
  calls : machine.hostCalls setting = []
  activations : next.memory.activations.size ≤ machine.memory.activations.size
  drops : machine.Drops next (.thrown error)

/--
What happens to the frame of a site that stands over a number of others, and the stage that it
leads to.  The frame makes turns of its own, or waits for the one on top of it; between turns the
host changes, or the program is saved and restored.
-/
inductive Serves (setting : Setting) (site : Site) (depth : Nat) :
    Stage × Machine → Stage × Machine → Prop where
  | rests
      {stage : Stage}
      {machine next : Machine} :
      (∃ host, next = machine.withHost host) ∨ next = machine.closeUnused →
      Serves setting site depth (stage, machine) (stage, next)
  | restored
      {stage : Stage}
      {machine next : Machine}
      {snapshot : Snapshot}
      {signature expected : UInt32}
      {host : Host} :
      machine.save setting.tree signature = .ok snapshot →
      Machine.restore setting.tree snapshot expected host = .ok next →
      Serves setting site depth (stage, machine)
        (stage.renamed (machine.numbering.numberOf machine.memory.world.heap), next)
  | waits
      {wait : Wait}
      {machine next : Machine} :
      depth + 1 < machine.frames.length →
      depth + 1 < next.frames.length →
      Serves setting site depth (.waiting wait, machine) (.waiting wait, next)
  | hands
      {wait : Wait}
      {completion : Completion}
      {machine next : Machine} :
      machine.frames.length = depth + 2 →
      machine.Drops next completion →
      wait.Ends completion →
      Serves setting site depth (.waiting wait, machine) (.handed wait completion, next)
  | begins
      {stage : Stage}
      {values : List Value}
      {part : ExprId}
      {frame : Frame}
      {machine next : Machine} :
      machine.frames.length = depth + 1 →
      stage.Collects values →
      (site.parts setting.tree)[values.length]? = some part →
      machine.Quiet setting next →
      machine.frames.head? = some frame →
      machine.Pushes next (.enter (.expression part .value) frame.act) →
      Serves setting site depth (stage, machine) (.waiting (.part values), next)
  | acts
      {stage later : Stage}
      {values : List Value}
      {machine next : Machine} :
      machine.frames.length = depth + 1 →
      stage.Collects values →
      values.length = (site.parts setting.tree).length →
      site.Acts setting machine next values later →
      Serves setting site depth (stage, machine) (later, next)
  | constructs
      {values : List Value}
      {object : ObjectId}
      {later : Stage}
      {machine next : Machine} :
      machine.frames.length = depth + 1 →
      values.length = (site.parts setting.tree).length →
      site.Constructs setting machine next values object later →
      Serves setting site depth (.handed (.fields values object) .normal, machine) (later, next)
  | returns
      {made : Option ObjectId}
      {value : Value}
      {completion : Completion}
      {machine next : Machine} :
      machine.frames.length = depth + 1 →
      machine.Quiet setting next →
      machine.Drops next completion →
      completion.Yields next.memory.world.heap ((made.map .object).getD value) →
      Serves setting site depth (.handed (.function made) (.value value), machine)
        (.done completion, next)
  | fails
      {wait : Wait}
      {error : RuntimeError}
      {machine next : Machine} :
      machine.frames.length = depth + 1 →
      machine.Quiet setting next →
      machine.Drops next (.thrown error) →
      Serves setting site depth (.handed wait (.thrown error), machine)
        (.done (.thrown error), next)
  | refuses
      {stage : Stage}
      {values : List Value}
      {error : RuntimeError}
      {machine next : Machine} :
      machine.frames.length = depth + 1 →
      stage.Collects values →
      values.length = (site.parts setting.tree).length ∨ site.isFields = true →
      machine.Refuses setting next error →
      Serves setting site depth (stage, machine) (.done (.thrown error), next)
  | refusesConstructor
      {values : List Value}
      {object : ObjectId}
      {error : RuntimeError}
      {machine next : Machine} :
      machine.frames.length = depth + 1 →
      machine.Refuses setting next error →
      Serves setting site depth (.handed (.fields values object) .normal, machine)
        (.done (.thrown error), next)
  | loses
      {stage : Stage}
      {error : RuntimeError}
      {machine next : Machine} :
      machine.frames.length = depth + 1 →
      site.isFields = true →
      machine.instance? = none →
      machine.Refuses setting next error →
      Serves setting site depth (stage, machine) (.done (.thrown error), next)

end BotScript
