import BotScript.Machine.Run

namespace BotScript

/-!
# Looking into a suspended program
-/

/-- A variable between two steps; its value is missing while it is undefined. -/
structure StackVar where
  name : String
  ty : Ty
  value : Option Value
  deriving Repr, DecidableEq, Inhabited

/-- The variables of one call of a function. -/
structure StackVars where
  function : String
  vars : List StackVar
  deriving Repr, DecidableEq, Inhabited

namespace Machine

/-- The current value of a static field. -/
def staticField? (tree : Tree) (machine : Machine) (owner field : String) : Option Value := do
  let id ← tree.classNamed? owner
  let index ← (tree.classDef id).statics.findIdx? fun entry => entry.name == field
  let cell ← (← machine.memory.statics[id.index]?)[index]?
  pure (machine.memory.world.heap.cell cell).value

/--
The variables of the function that runs some calls below the innermost one;
level zero is the innermost.  Initial values are not functions.
-/
def stackVars? (tree : Tree) (machine : Machine) (level : Nat) : Option StackVars := do
  let calls := machine.memory.activations.toList.reverse.filter fun entry => entry.function.isSome
  let activation ← calls[level]?
  let function ← tree.function? (← activation.function)
  let vars := (function.locals.zip activation.locals.toList).map fun (entry, id) =>
    let cell := machine.memory.world.heap.cell id
    ⟨entry.name, cell.ty, cell.get.toOption⟩
  pure ⟨function.name, vars⟩

/-- The call of the host that the next step makes, if it makes one. -/
def nextHostCall? (setting : Setting) (machine : Machine) : Option (Native × NativeCall) := do
  let frame ← machine.frames.head?
  let node ←
    match frame.node with
    | .expression id _ => setting.tree.expr? id
    | _ => none
  let (native, isMethod, arguments) ←
    match node.kind with
    | .nativeCall native arguments => some (native, false, arguments)
    | .methodCall _ _ (.native native) arguments => some (native, true, arguments)
    | _ => none
  if !frame.callsHost setting.tree then none
  let (collected, _) := (Step.collect frame arguments machine.incoming).run.run machine.memory
  let values := (← collected.toOption).1.values
  let types := arguments.map fun id => (setting.tree.expr id).ty
  let receiver :=
    match isMethod, values with
    | true, .object object :: _ => some object
    | _, _ => none
  let arguments := values.drop (if isMethod then 1 else 0)
  pure (← setting.registry.native? native, ⟨receiver, arguments, types⟩)

end Machine

end BotScript
