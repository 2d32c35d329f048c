import BotScript.Machine.Expression
import BotScript.Machine.Statement

namespace BotScript

/-!
# Steps of functions, of the root frame and of field values
-/

namespace Step

/-- The static field with an initial value that comes next, after a class and its static fields. -/
def nextStaticIn (initials : List FieldDef) (aux : UInt32) : Option (UInt32 × ExprId) :=
  match initials with
  | [] => none
  | field :: rest =>
      match field.initial with
      | some initial => some (aux, initial)
      | none => nextStaticIn rest (aux + 1)

/-- The next static field with an initial value: its class, its position and the value. -/
def nextStatic (classes : List ClassDef) (cursor aux : UInt32) :
    Option (UInt32 × UInt32 × ExprId) :=
  match classes with
  | [] => none
  | entry :: rest =>
      match nextStaticIn (entry.statics.drop aux.toNat) aux with
      | some (aux, initial) => some (cursor, aux, initial)
      | none => nextStatic rest (cursor + 1) 0

/-- Run the entry function. -/
def callEntry (setting : Setting) (frame : Frame) (entry : FuncId) : Step Move := do
  let function ← require .undefinedFunction (setting.tree.function? entry)
  let act ← pushActivation setting (← activationFor function entry none)
  pure (.push { frame with state := 3 } (.enter (.function entry) act))

/-- Evaluate the next initial value of a static field, or run the entry function. -/
def startNext (setting : Setting) (frame : Frame) (entry : FuncId) : Step Move :=
  let classes := setting.tree.classes.toList
  match nextStatic (classes.drop frame.cursor.toNat) frame.cursor frame.aux with
  | some (cursor, aux, initial) =>
      pure (pushExpression { frame with cursor, aux, state := 1 } initial .value)
  | none =>
      callEntry setting
        { frame with
          cursor := max frame.cursor (UInt32.ofNat classes.length)
          aux := if frame.cursor.toNat < classes.length then 0 else frame.aux }
        entry

/-- Store the initial value of a static field. -/
def storeStatic (setting : Setting) (frame : Frame) (value : Value) : Step Unit := do
  let tree := setting.tree
  let field ← require .notRunning
    ((tree.classes[frame.cursor.toNat]?).bind fun entry => entry.statics[frame.aux.toNat]?)
  let initial ← require .notRunning field.initial
  let source ← typeOf tree initial
  let cells := ((← get).statics[frame.cursor.toNat]?).getD #[]
  let cell ← require .notRunning cells[frame.aux.toNat]?
  storeDeclared cell value source field.limits

/-- A step of the root frame; its cursors are a class and one of its static fields. -/
def start
    (setting : Setting) (frame : Frame) (entry : FuncId) (incoming : Option Completion) :
    Step Move := do
  match frame.state with
  | 0 => startNext setting frame entry
  | 1 =>
      storeStatic setting frame (← valueOf incoming)
      startNext setting { frame with aux := frame.aux + 1, state := 0 } entry
  | 2 => callEntry setting frame entry
  | _ => pure (.complete (.value (← valueOf incoming)))

/-- A step of the body of a function. -/
def function
    (setting : Setting) (frame : Frame) (id : FuncId) (incoming : Option Completion) :
    Step Move := do
  let function ← part (setting.tree.function? id)
  match frame.state with
  | 0 =>
      let body ← require .undefinedFunction function.body
      pure (pushStatement { frame with state := 1 } body)
  | _ =>
      match incoming with
      | some (.returned value) => pure (.complete (.value value))
      | some (.thrown error) => pure (.complete (.thrown error))
      | _ =>
          if function.result.isVoid then pure (.complete (.value .void))
          else raise .noReturnValue

/-- Go through the fields of a new instance, up to the next initial value. -/
def setupFrom (this : ObjectId) (frame : Frame) : List FieldDef → Step Move
  | [] => done
  | field :: rest => do
      match field.initial with
      | some initial => pure (pushExpression { frame with state := 1 } initial .value)
      | none =>
          if !field.limits.isEmpty then
            let object := (← heap).object this
            let cell ← require .undefinedMember object.fields[frame.cursor.toNat]?
            let content ← allocate fun heap => heap.freshCell field.ty field.limits
            modifyHeap fun heap => heap.setCell cell content
          setupFrom this { frame with cursor := frame.cursor + 1 } rest

/-- Store the initial value of the field under the cursor. -/
def storeField
    (tree : Tree) (this : ObjectId) (frame : Frame) (fields : List FieldDef) (value : Value) :
    Step Unit := do
  let field ← require .notRunning fields[frame.cursor.toNat]?
  let initial ← require .notRunning field.initial
  let source ← typeOf tree initial
  let cell ← require .undefinedMember ((← heap).object this).fields[frame.cursor.toNat]?
  storeDeclared cell value source field.limits

/-- A step of the field values of a new instance; the cursor is the index of a field. -/
def fieldSetup
    (setting : Setting) (frame : Frame) (owner : ClassId) (incoming : Option Completion) :
    Step Move := do
  let tree := setting.tree
  let _ ← part (tree.class? owner)
  let fields := (tree.instanceFields owner).map (·.2)
  let this ← require .nullObject (← activationOf frame).this
  match frame.state with
  | 1 =>
      storeField tree this frame fields (← valueOf incoming)
      let frame := { frame with cursor := frame.cursor + 1, state := 0 }
      setupFrom this frame (fields.drop frame.cursor.toNat)
  | _ =>
      settle incoming
      setupFrom this frame (fields.drop frame.cursor.toNat)

/-- The step of a frame. -/
def ofFrame (setting : Setting) (frame : Frame) (incoming : Option Completion) : Step Move :=
  match frame.node with
  | .start entry => start setting frame entry incoming
  | .function id => function setting frame id incoming
  | .fieldSetup owner => fieldSetup setting frame owner incoming
  | .statement id => statement setting frame id incoming
  | .expression id demand => expression setting frame id demand incoming

end Step

/-- The last step that the frames of a node can be at, if the program has the node. -/
def Node.lastState? (tree : Tree) : Node → Option UInt32
  | .start _ => some 3
  | .function _ | .fieldSetup _ => some 1
  | .statement id => (tree.stmt? id).map fun node => node.kind.lastState
  | .expression id _ => (tree.expr? id).map fun node => node.kind.lastState

end BotScript
