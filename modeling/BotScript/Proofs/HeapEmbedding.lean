import BotScript.Proofs.Relocation
import BotScript.Proofs.TextDepth

namespace BotScript

/-!
# Operations on relocated heaps

If one heap lies in another, every operation on the inner heap is the renamed
form of the same operation on the outer heap, and one of the heaps afterwards
lies in the other again.
-/

/-- The parts of an inner heap lie on an outer heap, where everything else is idle. -/
structure Heap.Embeds (shift : Relocation) (inner outer : Heap) : Prop where
  cells :
    TableEmbeds shift.cellAt shift.content (fun index => shift.idle.cells[index]?)
      inner.cells outer.cells
  arrays :
    TableEmbeds shift.arrayAt shift.elements (fun index => shift.idle.arrays[index]?)
      inner.arrays outer.arrays
  objects :
    TableEmbeds shift.objectAt shift.fields (fun index => shift.idle.objects[index]?)
      inner.objects outer.objects

/-- Two operations fail with the same fault, or have related results. -/
inductive Agree {ε α β : Type} (related : α → β → Prop) : Except ε α → Except ε β → Prop where
  | ok
      {first : α}
      {second : β} :
      related first second →
      Agree related (.ok first) (.ok second)
  | error
      {fault : ε} :
      Agree related (.error fault) (.error fault)

/-- Every result agrees with itself. -/
theorem Agree.refl
    {ε α : Type}
    {related : α → α → Prop}
    (reflexive : ∀ value, related value value)
    (result : Except ε α) :
    Agree related result result := by
  cases result with
  | ok value => exact .ok (reflexive value)
  | error fault => exact .error

/-- What agrees is continued in the same way. -/
theorem Agree.bind
    {ε α β γ δ : Type}
    {related : α → β → Prop}
    {after : γ → δ → Prop}
    {first : Except ε α}
    {second : Except ε β}
    {next : α → Except ε γ}
    {other : β → Except ε δ}
    (agree : Agree related first second)
    (continued : ∀ value counterpart,
      related value counterpart → Agree after (next value) (other counterpart)) :
    Agree after (first >>= next) (second >>= other) := by
  cases agree with
  | ok values => exact continued _ _ values
  | error => exact .error

/-- An existing element of an array. -/
theorem Relocation.elements_get
    {shift : Relocation}
    (array : ArrayData)
    (index : Int64) :
    Agree (fun inner outer => outer = shift.cell inner)
      (array.get index) ((shift.elements array).get index) := by
  unfold ArrayData.get
  rw [Relocation.elements_items, Array.getElem?_map]
  split
  · exact .error
  · cases array.items[index.toInt.toNat]? with
    | some cell => exact .ok rfl
    | none => exact .error

namespace Heap.Embeds

variable {shift : Relocation} {inner outer : Heap}

/-- A heap lies in itself when nothing moves. -/
theorem refl
    (heap : Heap) :
    Heap.Embeds .stay heap heap where
  cells := by
    rw [Relocation.stay_content]
    exact TableEmbeds.refl _
  arrays := by
    rw [Relocation.stay_elements]
    exact TableEmbeds.refl _
  objects := by
    rw [Relocation.stay_fields]
    exact TableEmbeds.refl _

/-- Two heaps of which one lies in the other without a move are the same. -/
theorem eq_of_stay
    (embeds : Heap.Embeds .stay inner outer) :
    outer = inner := by
  obtain ⟨cells, arrays, objects⟩ := inner
  obtain ⟨otherCells, otherArrays, otherObjects⟩ := outer
  have sameCells : otherCells = cells := by
    refine Array.ext_getElem? fun index => ?_
    have entry := embeds.cells.entry index
    rwa [Relocation.stay_content, Option.map_id] at entry
  have sameArrays : otherArrays = arrays := by
    refine Array.ext_getElem? fun index => ?_
    have entry := embeds.arrays.entry index
    rwa [Relocation.stay_elements, Option.map_id] at entry
  have sameObjects : otherObjects = objects := by
    refine Array.ext_getElem? fun index => ?_
    have entry := embeds.objects.entry index
    rwa [Relocation.stay_fields, Option.map_id] at entry
  rw [sameCells, sameArrays, sameObjects]

variable (embeds : Heap.Embeds shift inner outer)

include embeds

/-- The cell at a position. -/
theorem cell
    (id : CellId) :
    outer.cell (shift.cell id) = shift.content (inner.cell id) :=
  embeds.cells.getD id.index rfl

/-- The array at a position. -/
theorem array
    (id : ArrayId) :
    outer.array (shift.array id) = shift.elements (inner.array id) :=
  embeds.arrays.getD id.index (Relocation.elements_empty .void [])

/-- The instance at a position. -/
theorem object
    (id : ObjectId) :
    outer.object (shift.object id) = shift.fields (inner.object id) :=
  embeds.objects.getD id.index (congrArg (Instance.mk default · none) Array.map_empty)

/-- A new cell. -/
theorem addCell
    (cell : Cell) :
    (outer.addCell (shift.content cell)).1 = shift.cell (inner.addCell cell).1 ∧
      Heap.Embeds shift (inner.addCell cell).2 (outer.addCell (shift.content cell)).2 :=
  ⟨congrArg CellId.mk embeds.cells.next.symm,
    embeds.cells.push cell, embeds.arrays, embeds.objects⟩

/-- A new array. -/
theorem addArray
    (array : ArrayData) :
    (outer.addArray (shift.elements array)).1 = shift.array (inner.addArray array).1 ∧
      Heap.Embeds shift (inner.addArray array).2 (outer.addArray (shift.elements array)).2 :=
  ⟨congrArg ArrayId.mk embeds.arrays.next.symm,
    embeds.cells, embeds.arrays.push array, embeds.objects⟩

/-- A new instance. -/
theorem addObject
    (object : Instance) :
    (outer.addObject (shift.fields object)).1 = shift.object (inner.addObject object).1 ∧
      Heap.Embeds shift (inner.addObject object).2 (outer.addObject (shift.fields object)).2 :=
  ⟨congrArg ObjectId.mk embeds.objects.next.symm,
    embeds.cells, embeds.arrays, embeds.objects.push object⟩

/-- A replaced cell. -/
theorem setCell
    (id : CellId)
    (cell : Cell) :
    Heap.Embeds shift (inner.setCell id cell)
      (outer.setCell (shift.cell id) (shift.content cell)) :=
  ⟨embeds.cells.set shift.cellAt_injective id.index cell, embeds.arrays, embeds.objects⟩

/-- A replaced array. -/
theorem setArray
    (id : ArrayId)
    (array : ArrayData) :
    Heap.Embeds shift (inner.setArray id array)
      (outer.setArray (shift.array id) (shift.elements array)) :=
  ⟨embeds.cells, embeds.arrays.set shift.arrayAt_injective id.index array, embeds.objects⟩

/-- A replaced instance. -/
theorem setObject
    (id : ObjectId)
    (object : Instance) :
    Heap.Embeds shift (inner.setObject id object)
      (outer.setObject (shift.object id) (shift.fields object)) :=
  ⟨embeds.cells, embeds.arrays, embeds.objects.set shift.objectAt_injective id.index object⟩

/-- Several new cells. -/
theorem addCells
    (cells : List Cell) :
    (outer.addCells (cells.map shift.content)).1 = (inner.addCells cells).1.map shift.cell ∧
      Heap.Embeds shift (inner.addCells cells).2
        (outer.addCells (cells.map shift.content)).2 := by
  induction cells generalizing inner outer with
  | nil =>
      exact ⟨by simp [Heap.addCells], embeds⟩
  | cons cell rest inductionHypothesis =>
      obtain ⟨same, after⟩ := embeds.addCell cell
      obtain ⟨sameRest, afterRest⟩ := inductionHypothesis after
      simp only [Heap.addCells, List.map_cons]
      exact ⟨by simp [same, sameRest], afterRest⟩

/-- A new instance with freshly declared fields. -/
theorem newInstance
    (layout : ClassLayout) :
    (outer.newInstance layout).1 = shift.object (inner.newInstance layout).1 ∧
      Heap.Embeds shift (inner.newInstance layout).2 (outer.newInstance layout).2 := by
  obtain ⟨same, after⟩ :=
    embeds.addCells (layout.allFields.map fun field => Cell.declared field.ty)
  have declared :
      (layout.allFields.map fun field => Cell.declared field.ty).map shift.content =
        layout.allFields.map fun field => Cell.declared field.ty := by
    simp [Function.comp_def]
  rw [declared] at same after
  simp only [Heap.newInstance, same]
  exact after.addObject ⟨layout, _, none⟩

/-- A variable declared without a value. -/
theorem freshCell
    (ty : Ty)
    (limits : Limits) :
    (outer.freshCell ty limits).1 = shift.content (inner.freshCell ty limits).1 ∧
      Heap.Embeds shift (inner.freshCell ty limits).2 (outer.freshCell ty limits).2 := by
  cases ty with
  | array element =>
      unfold Heap.freshCell
      dsimp only
      split
      · exact ⟨by simp, embeds⟩
      · obtain ⟨same, after⟩ := embeds.addArray (.empty element limits)
        rw [Relocation.elements_empty] at same after
        exact ⟨by simp [same], after⟩
  | _ => exact ⟨by simp [Heap.freshCell], embeds⟩

/-- A new cell of a variable declared without a value. -/
theorem addFresh
    (ty : Ty)
    (limits : Limits) :
    (outer.addFresh ty limits).1 = shift.cell (inner.addFresh ty limits).1 ∧
      Heap.Embeds shift (inner.addFresh ty limits).2 (outer.addFresh ty limits).2 := by
  obtain ⟨same, after⟩ := embeds.freshCell ty limits
  dsimp only [Heap.addFresh]
  rw [same]
  exact after.addCell _

/-- A default element of an array. -/
theorem newElement
    (array : ArrayData) :
    (outer.newElement (shift.elements array)).1 = shift.cell (inner.newElement array).1 ∧
      Heap.Embeds shift (inner.newElement array).2
        (outer.newElement (shift.elements array)).2 := by
  unfold Heap.newElement
  simp only [Relocation.elements_element, Relocation.elements_limits]
  split
  · next element _ =>
      obtain ⟨same, after⟩ := embeds.addArray (.empty element array.limits.tail)
      rw [Relocation.elements_empty] at same after
      rw [same]
      exact after.addCell (.withDefault array.element (.array _))
  · simpa using embeds.addCell (.zeroed array.element)

/-- Default elements at the end of an array. -/
theorem appendElements
    (id : ArrayId)
    (count : Nat) :
    Heap.Embeds shift (inner.appendElements id count)
      (outer.appendElements (shift.array id) count) := by
  induction count generalizing inner outer with
  | zero => exact embeds
  | succ count inductionHypothesis =>
      unfold Heap.appendElements
      dsimp only
      rw [embeds.array]
      obtain ⟨same, after⟩ := embeds.newElement (inner.array id)
      have stored :=
        after.setArray id
          { inner.array id with
            items := (inner.array id).items.push (inner.newElement (inner.array id)).1 }
      have renamed := inductionHypothesis stored
      simp only [Relocation.elements, Array.map_push, ← same] at renamed ⊢
      exact renamed

/-- The position of an element that is about to be written. -/
theorem positionForWrite
    (id : ArrayId)
    (index : Int64) :
    outer.positionForWrite (shift.array id) index = inner.positionForWrite id index := by
  simp only [Heap.positionForWrite, embeds.array, Relocation.elements_admits]

/-- The cell of an element up to which an array grows. -/
theorem growTo
    (id : ArrayId)
    (position : Nat) :
    (outer.growTo (shift.array id) position).1 =
        (inner.growTo id position).1.map shift.cell ∧
      Heap.Embeds shift (inner.growTo id position).2
        (outer.growTo (shift.array id) position).2 := by
  unfold Heap.growTo
  dsimp only
  rw [embeds.array]
  simp only [Relocation.elements_items, Array.size_map]
  have grown := embeds.appendElements id (position + 1 - (inner.array id).items.size)
  refine ⟨?_, grown⟩
  rw [grown.array]
  simp

/-- A cell at the end of an array. -/
theorem pushElement
    (id : ArrayId)
    (cell : CellId) :
    Agree (Heap.Embeds shift) (inner.pushElement id cell)
      (outer.pushElement (shift.array id) (shift.cell cell)) := by
  unfold Heap.pushElement
  dsimp only
  rw [embeds.array]
  simp only [Relocation.elements_items, Relocation.elements_admits, Array.size_map]
  split
  · exact .error
  · refine .ok ?_
    have stored :=
      embeds.setArray id { inner.array id with items := (inner.array id).items.push cell }
    simpa [Relocation.elements] using stored

/-- Several cells at the end of an array. -/
theorem pushElements
    (id : ArrayId)
    (cells : List CellId) :
    Agree (Heap.Embeds shift) (inner.pushElements id cells)
      (outer.pushElements (shift.array id) (cells.map shift.cell)) := by
  induction cells generalizing inner outer with
  | nil => exact .ok embeds
  | cons cell rest inductionHypothesis =>
      exact (embeds.pushElement id cell).bind fun _ _ after => inductionHypothesis after

/-- An initial value as a declaration with limits holds it. -/
theorem bounded
    (value : Value)
    (limits : Limits) :
    Agree
      (fun first second =>
        second.1 = shift.value first.1 ∧ Heap.Embeds shift first.2 second.2)
      (inner.bounded value limits) (outer.bounded (shift.value value) limits) := by
  match value, limits with
  | .array source, some limit :: rest =>
      obtain ⟨same, after⟩ :=
        embeds.addArray (.empty (inner.array source).element (some limit :: rest))
      rw [Relocation.elements_empty] at same after
      simp only [Heap.bounded, Relocation.value_array, embeds.array,
        Relocation.elements_element, Relocation.elements_items, Array.toList_map]
      rw [same]
      exact (after.pushElements _ _).bind fun _ _ pushed => .ok ⟨rfl, pushed⟩
  | .array _, none :: _ => exact .ok ⟨rfl, embeds⟩
  | .array _, [] => exact .ok ⟨rfl, embeds⟩
  | .void, _ => exact .ok ⟨rfl, embeds⟩
  | .bool _, _ => exact .ok ⟨rfl, embeds⟩
  | .int _, _ => exact .ok ⟨rfl, embeds⟩
  | .float _, _ => exact .ok ⟨rfl, embeds⟩
  | .str _, _ => exact .ok ⟨rfl, embeds⟩
  | .nan, _ => exact .ok ⟨rfl, embeds⟩
  | .null, _ => exact .ok ⟨rfl, embeds⟩
  | .object _, _ => exact .ok ⟨rfl, embeds⟩

/-- An inner heap has no more arrays and instances than the outer one. -/
theorem textDepth_le :
    inner.textDepth ≤ outer.textDepth := by
  have arrays := embeds.arrays.size_le shift.arrayAt_injective
  have objects := embeds.objects.size_le shift.objectAt_injective
  unfold Heap.textDepth
  omega

/-- The text of a value, nested no deeper than a bound. -/
theorem textWithin
    (inUse : Option CellId)
    (depth : Nat)
    (value : Value)
    (ty : Ty) :
    outer.textWithin (inUse.map shift.cell) depth (shift.value value) ty =
      inner.textWithin inUse depth value ty := by
  induction depth generalizing value ty with
  | zero => cases value <;> rfl
  | succ depth inductionHypothesis =>
      have items :
          outer.itemText (inUse.map shift.cell) depth ∘ shift.cell =
            inner.itemText inUse depth := by
        funext item
        have used : (inUse.map shift.cell == some (shift.cell item)) = (inUse == some item) := by
          cases inUse <;> simp [shift.cell_injective.eq_iff, beq_eq_beq]
        simp only [Function.comp_apply, Heap.itemText, used, embeds.cell,
          Relocation.content_state, Relocation.content_value, Relocation.content_ty,
          inductionHypothesis]
      cases value with
      | array id =>
          rw [Relocation.value_array, Heap.textWithin_array, Heap.textWithin_array,
            embeds.array, Relocation.elements_items, Array.toList_map, List.mapM_map, items]
      | object id =>
          rw [Relocation.value_object, Heap.textWithin_object, Heap.textWithin_object,
            embeds.object, Relocation.fields_fields, Array.toList_map, List.mapM_map, items,
            Relocation.fields_layout]
      | _ => rfl

/-- The text of a value, nested as deeply as the heap permits. -/
theorem deepText
    (inUse : Option CellId)
    (value : Value)
    (ty : Ty) :
    outer.textWithin (inUse.map shift.cell) outer.textDepth (shift.value value) ty =
      inner.textWithin inUse inner.textDepth value ty := by
  rw [embeds.textWithin, Heap.textWithin_textDepth embeds.textDepth_le]

/-- The text of a value. -/
theorem valueText
    (value : Value)
    (ty : Ty) :
    outer.valueText (shift.value value) ty = inner.valueText value ty :=
  embeds.deepText none value ty

/-- A converted value, while a cell may be in use. -/
theorem convertWhile
    (inUse : Option CellId)
    (value : Value)
    (source target : Ty) :
    outer.convertWhile (inUse.map shift.cell) (shift.value value) source target =
      (inner.convertWhile inUse value source target).map shift.value := by
  have text := embeds.deepText inUse value source
  cases value <;> cases target <;> try rfl
  case array.string id =>
      change (outer.textWithin _ _ (shift.value (.array id)) _).map Value.str =
        ((inner.textWithin _ _ _ _).map Value.str).map shift.value
      rw [text]
      cases inner.textWithin inUse inner.textDepth _ source <;> rfl
  case object.string id =>
      change (outer.textWithin _ _ (shift.value (.object id)) _).map Value.str =
        ((inner.textWithin _ _ _ _).map Value.str).map shift.value
      rw [text]
      cases inner.textWithin inUse inner.textDepth _ source <;> rfl
  case object.object id className =>
      change Except.ok (if (outer.object (shift.object id)).layout.isA className
          then Value.object (shift.object id) else Value.null) =
        Except.ok (shift.value (if (inner.object id).layout.isA className
          then Value.object id else Value.null))
      rw [embeds.object, Relocation.fields_layout]
      split <;> rfl

/-- A converted value. -/
theorem convert
    (value : Value)
    (source target : Ty) :
    outer.convert (shift.value value) source target =
      (inner.convert value source target).map shift.value :=
  embeds.convertWhile none value source target

/-- A cell after a store. -/
theorem stored
    (cell : Cell)
    (inUse : Option CellId)
    (value : Value)
    (source : Ty) :
    (shift.content cell).stored outer (inUse.map shift.cell) (shift.value value) source =
      (cell.stored inner inUse value source).map shift.content := by
  simp only [Cell.stored, embeds.convertWhile, Relocation.content_ty]
  cases inner.convertWhile inUse value source cell.ty <;> rfl

/-- A heap after a store. -/
theorem assign
    (id : CellId)
    (value : Value) :
    Agree (Heap.Embeds shift) (inner.assign id value)
      (outer.assign (shift.cell id) (shift.value value)) := by
  have stored := embeds.stored (inner.cell id) (some id) value (inner.cell id).ty
  simp only [Option.map_some] at stored
  simp only [Heap.assign, Heap.store, embeds.cell, Relocation.content_ty, stored]
  cases (inner.cell id).stored inner (some id) value (inner.cell id).ty with
  | ok cell => exact .ok (embeds.setCell id cell)
  | error fault => exact .error

/-- The value of a cell. -/
theorem read
    (id : CellId) :
    outer.read (shift.cell id) = (inner.read id).map shift.value := by
  simp only [Heap.read, Cell.get, embeds.cell, Relocation.content_state,
    Relocation.content_value]
  split <;> rfl

/-- The cell of a named field. -/
theorem fieldNamed?
    (id : ObjectId)
    (fieldName : String) :
    (outer.object (shift.object id)).fieldNamed? fieldName =
      ((inner.object id).fieldNamed? fieldName).map shift.cell := by
  simp only [Instance.fieldNamed?, embeds.object, Relocation.fields_layout,
    Relocation.fields_fields]
  cases (inner.object id).layout.fieldIndex? fieldName <;> simp

end Heap.Embeds

end BotScript
