import BotScript.Machine.Call

namespace BotScript

/-!
# Steps of expressions

A frame that demands a place gets the cell an expression denotes.  Assignments
and steps work on places; an indexed place grows its array, and creates a
missing array, on the way to the element.
-/

namespace Step

/-- The array a write through a cell goes to; a null reference becomes an empty array. -/
def arrayForWrite (holder : CellId) : Step ArrayId := do
  let cell := (← heap).cell holder
  match cell.value with
  | .array array => pure array
  | .null =>
      let element ← require .badIndex cell.ty.element?
      let array ← allocate fun heap => heap.addArray (.empty element [])
      store holder (.array array) cell.ty
      pure array
  | _ => raise .badIndex

/-- The position that an index expression has delivered. -/
def indexOf (incoming : Option Completion) : Step Int64 := do
  match ← valueOf incoming with
  | .nan => raise .nanOperand
  | value => require .badIndex value.int?

/-- An element of an array. -/
def element (frame : Frame) (demand : Demand) (incoming : Option Completion) : Step Move := do
  let position ← indexOf incoming
  match demand with
  | .place =>
      let holder ← require .notRunning frame.place
      let array ← arrayForWrite holder
      let position ← ofExcept ((← heap).positionForWrite array position)
      let cell ← allocate fun heap => heap.growTo array position
      pure (.complete (.place (← require .outsideArray cell)))
  | .value =>
      match frame.values.getLast? with
      | some (.array array) =>
          let cell ← ofExcept (((← heap).array array).get position)
          deliver cell demand
      | some .null => raise .nullObject
      | _ => raise .badIndex

/-- The store of an assignment whose right-hand side has been evaluated. -/
def assignTo
    (cell : CellId) (op : Option BinaryOp) (common ty source : Ty) (assigned : Value) :
    Step Unit := do
  match op with
  | none => store cell assigned source
  | some op =>
      let current ← read cell
      let left ← operand current ty common
      let right ← operand assigned source common
      store cell (← ofExcept (op.apply common left right)) common

/-- The literal of an array, one item at a time. -/
def arrayLiteral
    (tree : Tree) (frame : Frame) (items : List ExprId)
    (ty : Ty) (demand : Demand) (incoming : Option Completion) :
    Step Move := do
  let element ← require .badType1 ty.element?
  let values ←
    match incoming with
    | none => pure frame.values
    | some _ =>
        let item ← valueOf incoming
        let id ← require .notRunning items[frame.cursor.toNat - 1]?
        pure (frame.values ++ [← convert item (← typeOf tree id) element])
  match items[frame.cursor.toNat]? with
  | some next => pure (pushExpression { frame with values, cursor := frame.cursor + 1 } next .value)
  | none =>
      if ArrayData.greatestIndex + 1 < values.length then raise .outsideArray
      let id ← allocate fun heap =>
        let (cells, heap) := heap.addCells (values.map fun value => Cell.withValue element value)
        heap.addArray ⟨element, [], cells⟩
      produce (.array id) ty demand

/-- A step of an expression. -/
def expression
    (setting : Setting) (frame : Frame) (id : ExprId) (demand : Demand)
    (incoming : Option Completion) :
    Step Move := do
  let tree := setting.tree
  let node ← part (tree.expr? id)
  let ty := node.ty
  match node.kind with
  | .literal value => produce (.ofLiteral value) ty demand
  | .localVar slot =>
      let activation ← activationOf frame
      deliver (← require .undefinedVariable activation.locals[slot.index]?) demand
  | .this =>
      let activation ← activationOf frame
      produce ((activation.this.map Value.object).getD .null) ty demand
  | .field object index =>
      match frame.state with
      | 0 => pure (pushExpression { frame with state := 1 } object .value)
      | _ =>
          let object ← receiver (some (← valueOf incoming))
          let cell ← require .undefinedMember ((← heap).object object).fields[index.toNat]?
          deliver cell demand
  | .staticField owner index =>
      let fields := ((← get).statics[owner.index]?).getD #[]
      deliver (← require .undefinedMember fields[index.toNat]?) demand
  | .index array position =>
      match frame.state, demand with
      | 0, demand => pure (pushExpression { frame with state := 1 } array demand)
      | 1, .place =>
          let cell ← placeOf incoming
          pure (pushExpression { frame with place := some cell, state := 2 } position .value)
      | 1, .value =>
          let value ← valueOf incoming
          pure (pushExpression { frame with values := [value], state := 2 } position .value)
      | _, demand => element frame demand incoming
  | .assign op common target source =>
      match frame.state with
      | 0 => pure (pushExpression { frame with state := 1 } target .place)
      | 1 =>
          let cell ← placeOf incoming
          pure (pushExpression { frame with place := some cell, state := 2 } source .value)
      | _ =>
          let assigned ← valueOf incoming
          let cell ← require .notRunning frame.place
          assignTo cell op common ty (← typeOf tree source) assigned
          produce ((← heap).cell cell).value ty demand
  | .step op target =>
      match frame.state with
      | 0 => pure (pushExpression { frame with state := 1 } target .place)
      | _ =>
          let cell ← placeOf incoming
          let before ← read cell
          let after ← ofExcept (op.apply ty before)
          store cell after ((← heap).cell cell).ty
          produce (if op.isPostfix then before else after) ty demand
  | .binary op common left right =>
      match frame.state with
      | 0 => pure (pushExpression { frame with state := 1 } left .value)
      | 1 =>
          let value ← valueOf incoming
          pure (pushExpression { frame with values := [value], state := 2 } right .value)
      | _ =>
          let second ← operand (← valueOf incoming) (← typeOf tree right) common
          let first ← require .notRunning frame.values.getLast?
          let first ← operand first (← typeOf tree left) common
          produce (← ofExcept (op.apply common first second)) ty demand
  | .logical op left right =>
      match frame.state with
      | 0 => pure (pushExpression { frame with state := 1 } left .value)
      | 1 =>
          let first ← conditionOf incoming
          if first == (op == .or) then produce (.bool first) ty demand
          else pure (pushExpression { frame with state := 2 } right .value)
      | _ => produce (.bool (← conditionOf incoming)) ty demand
  | .conditional condition whenTrue whenFalse =>
      match frame.state with
      | 0 => pure (pushExpression { frame with state := 1 } condition .value)
      | 1 =>
          if ← conditionOf incoming then
            pure (pushExpression { frame with aux := 0, state := 2 } whenTrue .value)
          else pure (pushExpression { frame with aux := 1, state := 2 } whenFalse .value)
      | _ =>
          let branch := if frame.aux == 0 then whenTrue else whenFalse
          let value ← valueOf incoming
          produce (← convert value (← typeOf tree branch) ty) ty demand
  | .unary op operand =>
      match frame.state with
      | 0 => pure (pushExpression { frame with state := 1 } operand .value)
      | _ => produce (← ofExcept (op.apply ty (← valueOf incoming))) ty demand
  | .call function arguments => call setting frame function arguments ty demand incoming
  | .nativeCall native arguments => nativeCall setting frame native arguments ty demand incoming
  | .methodCall object slot target arguments =>
      methodCall setting frame object slot target arguments ty demand incoming
  | .new owner constructor arguments =>
      newInstance setting frame owner constructor arguments ty demand incoming
  | .arrayLiteral items => arrayLiteral tree frame items ty demand incoming

end Step

/-- The last step that the frames of an expression can be at. -/
def ExprKind.lastState : ExprKind → UInt32
  | .literal _ | .localVar _ | .this | .staticField _ _ | .arrayLiteral _ | .nativeCall _ _ => 0
  | .field _ _ | .step _ _ | .unary _ _ | .call _ _ => 1
  | .index _ _ | .assign _ _ _ _ | .binary _ _ _ _ | .logical _ _ _ | .conditional _ _ _
  | .methodCall _ _ _ _ | .new _ _ _ => 2

end BotScript
