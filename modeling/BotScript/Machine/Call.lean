import BotScript.Machine.Memory
import BotScript.Value.Layout

namespace BotScript

/-!
# Calls and new instances

The receiver and the arguments are evaluated from left to right into the
values of the frame.  A function of the program then runs as a frame of its
own over a new activation; a function of the host runs within the step.
-/

/-- The layout of the instances of a class, if the program has it. -/
def Tree.layout? (tree : Tree) (id : ClassId) : Option ClassLayout :=
  (tree.class? id).map fun _ =>
    ⟨id, (tree.classChain id).map fun owner =>
      let entry := tree.classDef owner
      ⟨entry.name, entry.fields.map fun field => ⟨field.name, field.ty⟩⟩⟩

/-- The function that a class runs for a method. -/
def Tree.dispatch? (tree : Tree) (receiver : ClassId) (slot : Option MethodSlot) :
    Option FuncId := do
  let entry ← tree.class? receiver
  entry.dispatch.lookup (← slot)

namespace Step

/--
Keep the argument that has just been evaluated.  The frame with its arguments
so far, and the argument that comes next, if there is one.
-/
def collect (frame : Frame) (arguments : List ExprId) (incoming : Option Completion) :
    Step (Frame × Option ExprId) := do
  let values ←
    match incoming with
    | some _ => pure (frame.values ++ [← valueOf incoming])
    | none => pure frame.values
  match arguments[frame.cursor.toNat]? with
  | some next => pure ({ frame with values, cursor := frame.cursor + 1 }, some next)
  | none => pure ({ frame with values }, none)

/-- The instance that a receiver denotes. -/
def receiver (value : Option Value) : Step ObjectId :=
  match value with
  | some (.object object) => pure object
  | some .null => raise .nullObject
  | _ => raise .notAClass

/-- The cells of parameters that hold the arguments of a call. -/
def bindParams (tree : Tree) :
    List Param → List ExprId → List Value → Array CellId → Step (Array CellId)
  | param :: params, argument :: arguments, value :: values, locals => do
      let cell ← allocate fun heap => heap.addCell (.declared param.ty)
      store cell value (← typeOf tree argument)
      bindParams tree params arguments values (locals.setIfInBounds param.slot.index cell)
  | _, _, _, locals => pure locals

/-- Add the activation of a function whose parameters hold the arguments of a call. -/
def bind
    (setting : Setting) (id : FuncId) (this : Option ObjectId)
    (arguments : List ExprId) (values : List Value) :
    Step UInt32 := do
  let function ← require .undefinedFunction (setting.tree.function? id)
  let activation ← activationFor function id this
  let locals ← bindParams setting.tree function.params arguments values activation.locals
  pushActivation setting { activation with locals }

/-- Run a function of the host. -/
def callNative
    (setting : Setting) (id : NativeId) (this : Option ObjectId)
    (arguments : List ExprId) (values : List Value) :
    Step Value := do
  let types ← arguments.mapM (typeOf setting.tree)
  ofAction (setting.registry.call id ⟨this, values, types⟩)

/-- A call of a function of the program. -/
def call
    (setting : Setting) (frame : Frame) (id : FuncId) (arguments : List ExprId)
    (ty : Ty) (demand : Demand) (incoming : Option Completion) :
    Step Move := do
  match frame.state with
  | 0 =>
      match ← collect frame arguments incoming with
      | (frame, some next) => pure (pushExpression frame next .value)
      | (frame, none) =>
          let act ← bind setting id none arguments frame.values
          pure (.push { frame with values := [], state := 1 } (.enter (.function id) act))
  | _ => produce (← valueOf incoming) ty demand

/-- A call of a function of the host. -/
def nativeCall
    (setting : Setting) (frame : Frame) (id : NativeId) (arguments : List ExprId)
    (ty : Ty) (demand : Demand) (incoming : Option Completion) :
    Step Move := do
  match ← collect frame arguments incoming with
  | (frame, some next) => pure (pushExpression frame next .value)
  | (frame, none) => produce (← callNative setting id none arguments frame.values) ty demand

/-- The call of a method once its receiver and arguments are known. -/
def invoke
    (setting : Setting) (frame : Frame) (slot : Option MethodSlot) (target : MethodImpl)
    (arguments : List ExprId) (ty : Ty) (demand : Demand) :
    Step Move := do
  let this ← receiver frame.values.head?
  let values := frame.values.drop 1
  match target with
  | .user declared =>
      let owner := ((← heap).object this).layout.id
      let id := (setting.tree.dispatch? owner slot).getD declared
      let act ← bind setting id (some this) arguments values
      pure (.push { frame with values := [], state := 2 } (.enter (.function id) act))
  | .native id => produce (← callNative setting id (some this) arguments values) ty demand

/-- A call of a method. -/
def methodCall
    (setting : Setting) (frame : Frame) (object : ExprId) (slot : Option MethodSlot)
    (target : MethodImpl) (arguments : List ExprId)
    (ty : Ty) (demand : Demand) (incoming : Option Completion) :
    Step Move := do
  match frame.state with
  | 0 => pure (pushExpression { frame with state := 1 } object .value)
  | 1 =>
      match ← collect frame arguments incoming with
      | (frame, some next) => pure (pushExpression frame next .value)
      | (frame, none) => invoke setting frame slot target arguments ty demand
  | _ => produce (← valueOf incoming) ty demand

/-- The call of a constructor; the new instance is the last value of the frame. -/
def construct
    (setting : Setting) (frame : Frame) (constructor : Option MethodImpl)
    (arguments : List ExprId) (ty : Ty) (demand : Demand) :
    Step Move := do
  let last ← require .notRunning frame.values.getLast?
  let this ← receiver (some last)
  let values := frame.values.dropLast
  match constructor with
  | none => produce (.object this) ty demand
  | some (.user id) =>
      let act ← bind setting id (some this) arguments values
      pure (.push { frame with values := [.object this], state := 2 } (.enter (.function id) act))
  | some (.native id) =>
      let _ ← callNative setting id (some this) arguments values
      produce (.object this) ty demand

/-- A new instance: its arguments, its fields, then its constructor. -/
def newInstance
    (setting : Setting) (frame : Frame) (owner : ClassId) (constructor : Option MethodImpl)
    (arguments : List ExprId) (ty : Ty) (demand : Demand) (incoming : Option Completion) :
    Step Move := do
  match frame.state with
  | 0 =>
      match ← collect frame arguments incoming with
      | (frame, some next) => pure (pushExpression frame next .value)
      | (frame, none) =>
          let layout ← require .notAClass (setting.tree.layout? owner)
          let object ← allocate fun heap => heap.newInstance layout
          let act ← pushActivation setting (.bare (some object))
          pure (.push { frame with values := frame.values ++ [.object object], state := 1 }
            (.enter (.fieldSetup owner) act))
  | 1 =>
      settle incoming
      construct setting frame constructor arguments ty demand
  | _ =>
      let _ ← valueOf incoming
      produce (.object (← receiver frame.values.getLast?)) ty demand

end Step

end BotScript
