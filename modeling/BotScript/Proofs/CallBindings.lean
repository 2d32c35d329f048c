import BotScript.Proofs.ArrayGrowth
import BotScript.Proofs.Outline

namespace BotScript

/-!
# Parameters that hold arguments

A call of a function of the program adds an activation for it.  Its parameters are cells that
were not there before, and each holds the argument at its position, converted to its type.
-/

/-- Every parameter of a function has the variable at its position. -/
def Tree.Slotted (tree : Tree) : Prop :=
  ∀ id function, tree.function? id = some function →
    ∀ (index : Nat) param, function.params[index]? = some param →
      param.slot.index = index ∧ index < function.locals.length

namespace Heap

/-- A heap that differs by further cells only. -/
def Grows (before after : Heap) : Prop :=
  ∃ cells : Array Cell, after = { before with cells := before.cells ++ cells }

/--
A variable of a new activation is a new cell of its own.  It holds an argument, converted from
the static type of the argument to the type of the parameter.
-/
def Binds
    (tree : Tree) (before after : Heap) (locals : Array CellId)
    (param : Param) (argument : ExprId) (value : Value) : Prop :=
  ∃ cell held between,
    locals[param.slot.index]? = some cell ∧
      (∀ other, locals[other]? = some cell → other = param.slot.index) ∧
      before.cells.size ≤ cell.index ∧
      after.cells[cell.index]? = some ⟨param.ty, held, .defined⟩ ∧
      before.Grows between ∧
      between.convertWhile (some cell) value (tree.expr argument).ty param.ty = .ok held

/-- A heap grows by nothing. -/
theorem Grows.refl (heap : Heap) : heap.Grows heap :=
  ⟨#[], by simp⟩

/-- A heap grows step by step. -/
theorem Grows.trans
    {first second third : Heap}
    (earlier : first.Grows second)
    (later : second.Grows third) :
    first.Grows third := by
  obtain ⟨cells, rfl⟩ := earlier
  obtain ⟨more, rfl⟩ := later
  exact ⟨cells ++ more, by simp⟩

/-- A heap grows by one cell. -/
theorem addCell_grows
    (heap : Heap)
    (cell : Cell) :
    heap.Grows (heap.addCell cell).2 :=
  ⟨#[cell], by simp [addCell]⟩

/-- A new cell that is replaced at once might have been placed with its later content. -/
theorem addCell_setCell
    (heap : Heap)
    (cell other : Cell) :
    (heap.addCell cell).2.setCell (heap.addCell cell).1 other = (heap.addCell other).2 := by
  have same :
      (heap.cells.push cell).setIfInBounds heap.cells.size other = heap.cells.push other := by
    rw [Array.push_eq_append, Array.setIfInBounds_append_right (Nat.le_refl _), Nat.sub_self]
    rfl
  exact congrArg (fun cells => { heap with cells }) same

/-- What is on a heap stays there when it grows. -/
theorem Grows.cell
    {before after : Heap}
    {index : Nat}
    {cell : Cell}
    (grows : before.Grows after)
    (found : before.cells[index]? = some cell) :
    after.cells[index]? = some cell := by
  obtain ⟨cells, rfl⟩ := grows
  rw [Array.getElem?_append_left (Array.getElem?_eq_some_iff.mp found).1, found]

/-- Several new cells are at the positions behind the last one. -/
theorem addCells_grows
    (heap : Heap)
    (cells : List Cell) :
    heap.Grows (heap.addCells cells).2 ∧
      (heap.addCells cells).2.cells.size = heap.cells.size + cells.length ∧
      ∀ (index : Nat) id, (heap.addCells cells).1[index]? = some id →
        id.index = heap.cells.size + index := by
  induction cells generalizing heap with
  | nil => exact ⟨.refl heap, rfl, by simp [addCells]⟩
  | cons first rest inductionHypothesis =>
      obtain ⟨grows, size, positions⟩ := inductionHypothesis (heap.addCell first).2
      have pushed : (heap.addCell first).2.cells.size = heap.cells.size + 1 := Array.size_push ..
      have sameIds :
          (heap.addCells (first :: rest)).1 =
            #[(heap.addCell first).1] ++ ((heap.addCell first).2.addCells rest).1 := rfl
      refine ⟨(heap.addCell_grows first).trans grows, ?_, fun index id found => ?_⟩
      · change ((heap.addCell first).2.addCells rest).2.cells.size = _
        rw [size, pushed, List.length_cons]
        omega
      · rw [sameIds] at found
        cases index with
        | zero =>
            cases (by simpa [Array.getElem?_append] using found : (heap.addCell first).1 = id)
            rfl
        | succ index =>
            have position :=
              positions index id (by simpa [Array.getElem?_append] using found)
            omega

end Heap

namespace Step

open Results

variable {α β : Type} {setting : Setting} {before after : Memory}

namespace Results

/-- What a step with a result is made of. -/
theorem bind_ok
    {first : Step α}
    {next : α → Step β}
    {result : β}
    (taken : Results before (first >>= next) (.ok result) after) :
    ∃ middle between,
      Results before first (.ok middle) between ∧
        Results between (next middle) (.ok result) after := by
  cases reached : first.run.run before with
  | mk outcome between =>
      cases outcome with
      | error interrupt =>
          have isFirst : Results before first (.error interrupt) between := reached
          have stopped : Results before (first >>= next) (.error interrupt) between := stop isFirst
          cases stopped.symm.trans taken
      | ok middle =>
          have isFirst : Results before first (.ok middle) between := reached
          exact ⟨middle, between, isFirst, isFirst.run_bind.symm.trans taken⟩

/-- A value that was there. -/
theorem require_ok
    {code : ErrorCode}
    {found : Option α}
    {value : α}
    (taken : Results before (Step.require code found) (.ok value) after) :
    found = some value ∧ after = before := by
  cases found with
  | none => cases taken
  | some other =>
      cases taken
      exact ⟨rfl, rfl⟩

/-- The static type of an expression that the program has. -/
theorem typeOf_ok
    {tree : Tree}
    {id : ExprId}
    {ty : Ty}
    (taken : Results before (Step.typeOf tree id) (.ok ty) after) :
    ty = (tree.expr id).ty ∧ after = before := by
  unfold Step.typeOf at taken
  unfold Tree.expr
  cases found : tree.expr? id with
  | none =>
      rw [found] at taken
      cases taken
  | some node =>
      rw [found] at taken
      cases taken
      exact ⟨rfl, rfl⟩

/-- The memory after the store of a value into a cell. -/
theorem store_ok
    {id : CellId}
    {value : Value}
    {source : Ty}
    (taken : Results before (Step.store id value source) (.ok ()) after) :
    ∃ held,
      before.world.heap.convertWhile (some id) value source (before.world.heap.cell id).ty =
          .ok held ∧
        after = before.withHeap
          (before.world.heap.setCell id ⟨(before.world.heap.cell id).ty, held, .defined⟩) := by
  obtain ⟨_, _, current, taken⟩ := bind_ok taken
  cases current
  obtain ⟨stored, _, checked, taken⟩ := bind_ok taken
  cases taken
  unfold Cell.stored at checked
  cases converted :
      before.world.heap.convertWhile (some id) value source (before.world.heap.cell id).ty with
  | error fault =>
      rw [converted] at checked
      cases checked
  | ok held =>
      rw [converted] at checked
      cases checked
      exact ⟨held, rfl, rfl⟩

end Results

/-! ## Parameters -/

/-- A variable declared without a value has the type of its declaration. -/
theorem declared_ty (ty : Ty) : (Cell.declared ty).ty = ty := by
  unfold Cell.declared
  split <;> rfl

/-- The first parameter is bound to a new cell, and the others behind it. -/
theorem bindParams_cons_ok
    {tree : Tree}
    {param : Param}
    {params : List Param}
    {argument : ExprId}
    {arguments : List ExprId}
    {value : Value}
    {values : List Value}
    {locals bound : Array CellId}
    (taken :
      Results before
        (Step.bindParams tree (param :: params) (argument :: arguments) (value :: values) locals)
        (.ok bound) after) :
    ∃ held between,
      before.world.heap.Grows between ∧
        between.convertWhile (some ⟨before.world.heap.cells.size⟩) value (tree.expr argument).ty
            param.ty = .ok held ∧
        Results (before.withHeap (before.world.heap.addCell ⟨param.ty, held, .defined⟩).2)
          (Step.bindParams tree params arguments values
            (locals.setIfInBounds param.slot.index ⟨before.world.heap.cells.size⟩))
          (.ok bound) after := by
  obtain ⟨_, _, added, taken⟩ := Results.bind_ok taken
  cases added
  obtain ⟨_, _, isSource, taken⟩ := Results.bind_ok taken
  obtain ⟨rfl, rfl⟩ := Results.typeOf_ok isSource
  obtain ⟨_, _, isStored, taken⟩ := Results.bind_ok taken
  obtain ⟨held, converted, rfl⟩ := Results.store_ok isStored
  change Heap.convertWhile (before.world.heap.addCell (.declared param.ty)).2
    (some (before.world.heap.addCell (.declared param.ty)).1) value (tree.expr argument).ty
    ((before.world.heap.addCell (.declared param.ty)).2.cell
      (before.world.heap.addCell (.declared param.ty)).1).ty = .ok held at converted
  rw [Heap.cell_addCell, declared_ty] at converted
  change Results
    (before.withHeap ((before.world.heap.addCell (.declared param.ty)).2.setCell
      (before.world.heap.addCell (.declared param.ty)).1
      ⟨((before.world.heap.addCell (.declared param.ty)).2.cell
        (before.world.heap.addCell (.declared param.ty)).1).ty, held, .defined⟩)) _ _ _ at taken
  rw [Heap.cell_addCell, declared_ty, Heap.addCell_setCell] at taken
  exact ⟨held, _, Heap.addCell_grows _ _, converted, taken⟩

/-- Parameters at their positions are bound to new cells; the other variables stay. -/
theorem bindParams_ok
    {tree : Tree}
    {params : List Param}
    {arguments : List ExprId}
    {values : List Value}
    {locals bound : Array CellId}
    {offset : Nat}
    (slots : ∀ (index : Nat) param, params[index]? = some param →
      param.slot.index = offset + index ∧ offset + index < locals.size)
    (taken :
      Results before (Step.bindParams tree params arguments values locals) (.ok bound) after) :
    ∃ heap,
      after = before.withHeap heap ∧
        before.world.heap.Grows heap ∧
        (∀ index < offset, bound[index]? = locals[index]?) ∧
        (∀ (index : Nat) cell, bound[index]? = some cell →
          locals[index]? = some cell ∨
            offset ≤ index ∧ cell.index = before.world.heap.cells.size + (index - offset)) ∧
        ∀ (index : Nat) param argument value,
          params[index]? = some param → arguments[index]? = some argument →
            values[index]? = some value →
            ∃ held between,
              bound[offset + index]? = some ⟨before.world.heap.cells.size + index⟩ ∧
                heap.cells[before.world.heap.cells.size + index]? =
                  some ⟨param.ty, held, .defined⟩ ∧
                before.world.heap.Grows between ∧
                between.convertWhile (some ⟨before.world.heap.cells.size + index⟩) value
                  (tree.expr argument).ty param.ty = .ok held := by
  induction params generalizing before arguments values locals offset with
  | nil =>
      cases taken
      exact ⟨_, rfl, .refl _, fun _ _ => rfl, fun _ _ found => .inl found, by simp⟩
  | cons first params inductionHypothesis =>
      rcases arguments with _ | ⟨argument, arguments⟩
      · cases taken
        exact ⟨_, rfl, .refl _, fun _ _ => rfl, fun _ _ found => .inl found, by simp⟩
      rcases values with _ | ⟨value, values⟩
      · cases taken
        exact ⟨_, rfl, .refl _, fun _ _ => rfl, fun _ _ found => .inl found, by simp⟩
      obtain ⟨held, between, grows, converted, taken⟩ := bindParams_cons_ok taken
      obtain ⟨slot, inside⟩ := slots 0 first rfl
      rw [Nat.add_zero] at slot inside
      rw [slot] at taken
      have size :
          (before.world.heap.addCell ⟨first.ty, held, .defined⟩).2.cells.size =
            before.world.heap.cells.size + 1 := Array.size_push ..
      have added :
          (before.world.heap.addCell ⟨first.ty, held, .defined⟩).2.cells[
              before.world.heap.cells.size]? = some ⟨first.ty, held, .defined⟩ :=
        Array.getElem?_push_size
      generalize isNext :
        (before.world.heap.addCell ⟨first.ty, held, .defined⟩).2 = next at taken size added
      have firstGrows : before.world.heap.Grows next := isNext ▸ Heap.addCell_grows _ _
      obtain ⟨heap, rfl, restGrows, kept, others, inner⟩ :=
        @inductionHypothesis (before.withHeap next) arguments values _ (offset + 1)
          (fun index param found => by
            obtain ⟨slot, inside⟩ := slots (index + 1) param found
            rw [Array.size_setIfInBounds]
            omega) taken
      simp only [Memory.withHeap, size] at restGrows others inner
      refine ⟨heap, rfl, firstGrows.trans restGrows, fun index isLess => ?_,
        fun index cell found => ?_, fun index param other item isParam isArgument isValue => ?_⟩
      · rw [kept index (by omega), Array.getElem?_setIfInBounds_ne (by omega)]
      · obtain old | ⟨behind, position⟩ := others index cell found
        · by_cases same : offset = index
          · subst same
            rw [Array.getElem?_setIfInBounds_self_of_lt inside] at old
            cases old
            exact .inr ⟨Nat.le_refl _, by simp⟩
          · exact .inl (Array.getElem?_setIfInBounds_ne same ▸ old)
        · exact .inr ⟨by omega, by omega⟩
      · cases index with
        | zero =>
            cases isParam
            cases isArgument
            cases isValue
            refine ⟨held, between, ?_, restGrows.cell added, grows, converted⟩
            rw [Nat.add_zero, kept offset (Nat.lt_succ_self _),
              Array.getElem?_setIfInBounds_self_of_lt inside]
            rfl
        | succ index =>
            obtain ⟨later, laterHeap, isBound, stored, laterGrows, laterConverted⟩ :=
              inner index param other item isParam isArgument isValue
            have position :
                before.world.heap.cells.size + 1 + index =
                  before.world.heap.cells.size + (index + 1) := by omega
            rw [position] at isBound stored laterConverted
            exact ⟨later, laterHeap, by rw [← isBound]; congr 1; omega, stored,
              firstGrows.trans laterGrows, laterConverted⟩

/-- The variables of a new activation are new cells, one for each. -/
theorem activationFor_ok
    {function : FunctionDef}
    {id : FuncId}
    {this : Option ObjectId}
    {activation : Activation}
    (taken : Results before (Step.activationFor function id this) (.ok activation) after) :
    ∃ heap locals,
      after = before.withHeap heap ∧
        activation = ⟨some id, this, locals⟩ ∧
        before.world.heap.Grows heap ∧
        locals.size = function.locals.length ∧
        heap.cells.size = before.world.heap.cells.size + function.locals.length ∧
        ∀ (index : Nat) cell, locals[index]? = some cell →
          cell.index = before.world.heap.cells.size + index := by
  cases taken
  obtain ⟨grows, size, positions⟩ :=
    before.world.heap.addCells_grows (function.locals.map fun entry => Cell.declared entry.ty)
  refine ⟨_, _, rfl, rfl, grows, ?_, ?_, positions⟩
  · rw [Heap.size_addCells, List.length_map]
  · rw [size, List.length_map]

/-- An activation is added behind the others, if there is room for it. -/
theorem pushActivation_ok
    {activation : Activation}
    {act : UInt32}
    (taken : Results before (Step.pushActivation setting activation) (.ok act) after) :
    act = UInt32.ofNat before.activations.size ∧
      after = { before with activations := before.activations.push activation } := by
  obtain ⟨_, _, current, taken⟩ := Results.bind_ok taken
  cases current
  by_cases full : setting.callDepth.toNat ≤ before.activations.size
  · rw [if_pos full] at taken
    cases taken
  · rw [if_neg full] at taken
    cases taken
    exact ⟨rfl, rfl⟩

/--
An activation of a function is added in which every parameter that has an argument holds it in
a new cell.
-/
theorem bind_binds
    {id : FuncId}
    {this : Option ObjectId}
    {arguments : List ExprId}
    {values : List Value}
    {act : UInt32}
    (slotted : setting.tree.Slotted)
    (taken : Results before (Step.bind setting id this arguments values) (.ok act) after) :
    ∃ function locals heap,
      setting.tree.function? id = some function ∧
        act = UInt32.ofNat before.activations.size ∧
        after = ⟨⟨heap, before.world.host⟩, before.activations.push ⟨some id, this, locals⟩,
          before.statics⟩ ∧
        before.world.heap.Grows heap ∧
        ∀ (index : Nat) param argument value,
          function.params[index]? = some param → arguments[index]? = some argument →
            values[index]? = some value →
            Heap.Binds setting.tree before.world.heap heap locals param argument value := by
  obtain ⟨function, _, required, rest⟩ := Results.bind_ok taken
  obtain ⟨found, rfl⟩ := Results.require_ok required
  obtain ⟨_, _, activated, rest⟩ := Results.bind_ok rest
  obtain ⟨first, locals, rfl, rfl, grows, size, room, positions⟩ := activationFor_ok activated
  obtain ⟨bound, _, areBound, rest⟩ := Results.bind_ok rest
  have slots := slotted id function found
  have placed (index : Nat) (param : Param) (isParam : function.params[index]? = some param) :
      param.slot.index = 0 + index ∧ 0 + index < locals.size := by
    obtain ⟨slot, inside⟩ := slots index param isParam
    omega
  obtain ⟨heap, rfl, laterGrows, -, others, inner⟩ := bindParams_ok placed areBound
  obtain ⟨rfl, rfl⟩ := pushActivation_ok rest
  simp only [Memory.withHeap, Nat.zero_add, Nat.sub_zero] at laterGrows others inner
  refine ⟨function, bound, heap, found, rfl, rfl, grows.trans laterGrows, ?_⟩
  intro index param argument value isParam isArgument isValue
  obtain ⟨held, between, isBound, stored, betweenGrows, converted⟩ :=
    inner index param argument value isParam isArgument isValue
  obtain ⟨slot, inside⟩ := slots index param isParam
  refine ⟨_, held, between, slot ▸ isBound, fun other isOther => ?_, ?_, stored,
    grows.trans betweenGrows, converted⟩
  · -- The variables have got their cells before any parameter did.
    rw [slot]
    obtain old | ⟨-, position⟩ := others other _ isOther
    · have place := positions other _ old
      have bounded := (Array.getElem?_eq_some_iff.mp old).1
      simp only at place
      omega
    · simp only at position
      omega
  · simp only
    omega

end Step

end BotScript
