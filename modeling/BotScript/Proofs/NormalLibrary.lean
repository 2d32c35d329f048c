import BotScript.Proofs.LockstepLibrary
import BotScript.Proofs.NormalHeap

namespace BotScript

/-!
# What the standard library writes and finds

The natives of the standard library store into fields of files, and close a
file by declaring the field of its number anew.  All else that they change is
not in cells.  They do not know the program, so they find no part of it missing.
-/

/-- An action writes cells only in the ways in which a host does. -/
class Action.Writing {α : Type} (action : Action α) : Prop where
  writes : ∀ world : World, Heap.Writes world.heap (action.run.run world).2.heap

/-- The natives of a host write cells only in the ways in which a host does. -/
def Registry.WritesCells (registry : Registry) : Prop :=
  ∀ id call, Action.Writing (registry.call id call)

/-- Such an action does not answer either that a part of the program is missing. -/
class Action.Plain {α : Type} (action : Action α) : Prop extends Action.Writing action where
  found : ∀ world : World, (action.run.run world).1 ≠ .error .missingPart

/-- No native of a host answers that a part of the program is missing. -/
def Registry.Plain (registry : Registry) : Prop :=
  ∀ id call, Action.Plain (registry.call id call)

namespace Action.Plain

variable {α β : Type}

/-! ## Parts of actions -/

/-- A result that needs no action. -/
instance pure
    (value : α) :
    Plain (Pure.pure value : Action α) where
  writes world := .refl world.heap
  found _ missing := by cases missing

/-- An action and what follows it. -/
instance bind
    (first : Action α)
    (next : α → Action β)
    [plain : Plain first]
    [rest : ∀ value, Plain (next value)] :
    Plain (first >>= next) := by
  have runs (world : World) :
      Heap.Writes world.heap ((first >>= next).run.run world).2.heap ∧
        ((first >>= next).run.run world).1 ≠ .error .missingPart := by
    have reached := plain.writes world
    have found := plain.found world
    simp only [ExceptT.run_bind, StateT.run_bind]
    revert reached found
    generalize first.run.run world = taken
    obtain ⟨result, after⟩ := taken
    intro reached found
    cases result with
    | ok value => exact ⟨reached.trans ((rest value).writes after), (rest value).found after⟩
    | error fault => exact ⟨reached, fun missing => found (by cases missing; rfl)⟩
  exact { writes := fun world => (runs world).1, found := fun world => (runs world).2 }

/-- An action and what is shown to follow it. -/
theorem andThen
    {first : Action α}
    {next : α → Action β}
    [Plain first]
    (rest : ∀ value, Plain (next value)) :
    Plain (first >>= next) :=
  bind first next

/-- One of two actions. -/
instance ite
    (condition : Prop)
    [Decidable condition]
    (first second : Action α)
    [Plain first]
    [Plain second] :
    Plain (if condition then first else second) := by
  split <;> assumption

/-- A failure. -/
instance fail
    (code : ErrorCode) :
    Plain (Action.fail code : Action α) where
  writes world := .refl world.heap
  found _ missing := by cases missing

/-- A check that finds all parts. -/
theorem ofChecked
    {result : Checked α}
    (found : result ≠ .error .missingPart) :
    Plain (Action.ofChecked result) := by
  cases result with
  | ok value => exact pure value
  | error fault =>
      exact
        { writes := fun world => .refl world.heap
          found := fun _ missing => found (by cases missing; rfl) }

/-- The text of a value. -/
instance valueText
    (heap : Heap)
    (value : Value)
    (ty : Ty) :
    Plain (Action.ofChecked (heap.valueText value ty)) :=
  ofChecked (heap.textWithin_found none heap.textDepth value ty)

/-- A value that must be there. -/
instance require
    (code : ErrorCode)
    (value : Option α) :
    Plain (Action.require code value) := by
  cases value with
  | none => exact fail code
  | some value => exact pure value

/-- The world is looked at. -/
instance get : Plain (MonadState.get : Action World) where
  writes world := .refl world.heap
  found _ missing := by cases missing

/-- A change of the host. -/
instance modifyHost
    (change : Host → Host) :
    Plain (Action.modifyHost change) where
  writes world := .refl world.heap
  found _ missing := by cases missing

/-- A store of a value of the type of the cell. -/
instance assign
    (cell : CellId)
    (value : Value) :
    Plain (Action.assign cell value) := by
  have runs (world : World) (result : Checked Heap)
      (writes : ∀ heap, result = .ok heap → Heap.Writes world.heap heap)
      (found : result ≠ .error .missingPart) :
      Heap.Writes world.heap
          ((do Action.setHeap (← Action.ofChecked result) : Action Unit).run.run world).2.heap ∧
        ((do Action.setHeap (← Action.ofChecked result) : Action Unit).run.run world).1 ≠
          .error .missingPart := by
    cases result with
    | ok heap => exact ⟨writes heap rfl, fun missing => by cases missing⟩
    | error fault => exact ⟨.refl world.heap, fun missing => found (by cases missing; rfl)⟩
  have stores (world : World) :=
    runs world _ (fun heap stored => .store (.refl world.heap) stored)
      (world.heap.store_found cell value (world.heap.cell cell).ty)
  exact { writes := fun world => (stores world).1, found := fun world => (stores world).2 }

/-! ## Arguments -/

/-- An argument as a text. -/
instance string
    (call : NativeCall)
    (index : Nat) :
    Plain (call.string index) := by
  refine andThen fun value => ?_
  split <;> infer_instance

/-- An argument as an integer. -/
instance int
    (call : NativeCall)
    (index : Nat) :
    Plain (call.int index) := by
  refine andThen fun value => ?_
  split <;> infer_instance

/-- The receiver. -/
instance this
    (call : NativeCall) :
    Plain call.this :=
  require _ _

/-- The cell of a field of the receiver. -/
instance fieldCell
    (call : NativeCall)
    (name : String) :
    Plain (call.fieldCell name) := by
  unfold NativeCall.fieldCell
  infer_instance

/-! ## Files -/

/-- The number of the open file of the receiver. -/
instance handleOf
    (call : NativeCall) :
    Plain (FileLibrary.handleOf call) := by
  unfold FileLibrary.handleOf
  infer_instance

/-- The owner of an open file. -/
instance attach
    (object : ObjectId)
    (handle : FileHandle) :
    Plain (FileLibrary.attach object handle) where
  writes world := .elsewhere (.refl world.heap) rfl
  found _ missing := by cases missing

/-- The owner of an open file gives it up. -/
instance detach
    (object : ObjectId) :
    Plain (FileLibrary.detach object) where
  writes world := .elsewhere (.refl world.heap) rfl
  found _ missing := by cases missing

/-- The name and mode that arguments give. -/
instance nameAndMode
    (call : NativeCall) :
    Plain (FileLibrary.nameAndMode call) := by
  unfold FileLibrary.nameAndMode
  split
  · infer_instance
  · refine andThen fun argument => ?_
    split
    · refine andThen fun cell => andThen fun world => ?_
      split <;> infer_instance
    · infer_instance
  · infer_instance
  · infer_instance

/-- A file is opened. -/
instance openFile
    (call : NativeCall) :
    Plain (FileLibrary.openFile call) := by
  unfold FileLibrary.openFile
  infer_instance

/-- An operation on the open file of the receiver. -/
instance withOpen
    (call : NativeCall)
    (operation : OpenFile → FileAccess → α × OpenFile × FileAccess) :
    Plain (FileLibrary.withOpen call operation) := by
  unfold FileLibrary.withOpen
  infer_instance

/-- A field that is declared anew. -/
instance redeclare
    (cell : CellId)
    (ty : Ty)
    (next : Action α)
    [rest : Plain next] :
    Plain (do
      let world ← MonadState.get
      Action.setHeap (world.heap.setCell cell (Cell.declared ty))
      next) where
  writes world := (Heap.Writes.redeclare cell ty (.refl world.heap)).trans
    (rest.writes { world with heap := world.heap.setCell cell (Cell.declared ty) })
  found world := rest.found { world with heap := world.heap.setCell cell (Cell.declared ty) }

/-! ## Natives -/

/-- The text functions. -/
theorem strings
    {native : Native}
    (member : native ∈ StringLibrary.natives)
    (call : NativeCall) :
    Plain (native.run call) := by
  simp only [StringLibrary.natives, List.mem_cons, List.not_mem_nil, or_false] at member
  rcases member with rfl | rfl | rfl | rfl | rfl | rfl | rfl | rfl
  case inr.inr.inr.inr.inr.inl =>
    refine andThen fun text => andThen fun needle => ?_
    split <;> infer_instance
  all_goals exact bind _ _

/-- The methods of files. -/
theorem files
    {native : Native}
    (member : native ∈ FileLibrary.methods)
    (call : NativeCall) :
    Plain (native.run call) := by
  simp only [FileLibrary.methods, List.mem_cons, List.not_mem_nil, or_false] at member
  rcases member with rfl | rfl | rfl | rfl | rfl | rfl
  · unfold FileLibrary.construct
    infer_instance
  all_goals exact bind _ _

/-- The number of elements of an array. -/
theorem arraySize
    (call : NativeCall) :
    Plain (BotScript.arraySize.run call) := by
  refine andThen fun world => ?_
  split <;> infer_instance

end Action.Plain

/-- The natives of the standard library write and find what they should. -/
theorem Registry.standard_plain : standard.Plain := by
  intro id call
  unfold Registry.call
  cases found : standard.native? id with
  | none => exact Action.Plain.fail _
  | some native =>
      rcases standard_native? found with rfl | member | member | rfl
      · exact Action.Plain.arraySize call
      · exact Action.Plain.strings member call
      · exact Action.Plain.files member call
      · exact Action.Plain.bind _ _

/-- The natives of the standard library write cells only in the ways in which a host does. -/
theorem Registry.standard_writesCells : standard.WritesCells :=
  fun id call => (standard_plain id call).toWriting

end BotScript
