import BotScript.Proofs.CallMoves

namespace BotScript

/-!
# Fields that are set up

The initial values of the fields of an instance are evaluated one behind the other.  A step stores
the value that has been delivered, goes through the fields without one, and evaluates the next
initial value.
-/

open Step (Results)

/-- The initial values of the fields of an instance are the parts of the site that they are. -/
theorem Site.parts_fields
    (tree : Tree)
    (owner : ClassId) :
    (Site.fields owner).parts tree =
      ((tree.instanceFields owner).map (·.2)).filterMap (·.initial) := by
  unfold Site.parts Tree.instanceFields
  rw [List.filterMap_map, List.filterMap_flatMap]
  simp only [List.filterMap_map]
  rfl

/-! ## Instances that stay -/

namespace Heap

/-- No instance is made when cells are appended to an array. -/
theorem pushElements_objects
    {heap after : Heap}
    {array : ArrayId}
    {cells : List CellId}
    (pushed : heap.pushElements array cells = .ok after) :
    after.objects = heap.objects := by
  induction cells generalizing heap with
  | nil =>
      cases pushed
      rfl
  | cons cell cells inductionHypothesis =>
      unfold Heap.pushElements at pushed
      cases first : heap.pushElement array cell with
      | error code =>
          rw [first] at pushed
          cases pushed
      | ok between =>
          rw [first] at pushed
          rw [inductionHypothesis pushed]
          unfold Heap.pushElement at first
          dsimp only at first
          split at first
          · cases first
          · cases first
            rfl

/-- No instance is made when an initial value is held as a declaration with limits has it. -/
theorem bounded_objects
    {heap after : Heap}
    {value held : Value}
    {limits : Limits}
    (bounded : heap.bounded value limits = .ok (held, after)) :
    after.objects = heap.objects := by
  unfold Heap.bounded at bounded
  split at bounded
  · next source limit limits =>
    dsimp only at bounded
    generalize isAdded :
      heap.addArray (.empty (heap.array source).element (some limit :: limits)) = added at bounded
    cases pushed : added.2.pushElements added.1 (heap.array source).items.toList with
    | error code =>
        rw [pushed] at bounded
        cases bounded
    | ok between =>
        rw [pushed] at bounded
        cases bounded
        rw [pushElements_objects pushed, ← isAdded]
        rfl
  · cases bounded
    rfl

/-- No instance is made for a variable that is declared without a value. -/
theorem freshCell_objects
    (heap : Heap)
    (ty : Ty)
    (limits : Limits) :
    (heap.freshCell ty limits).2.objects = heap.objects := by
  unfold Heap.freshCell
  split
  · split <;> rfl
  · rfl

end Heap

namespace Step

variable {before after : Memory}

section Results

variable {α β : Type} {result : β}

/-- What follows a value that must be there goes on with the value. -/
theorem Results.require_bind
    {code : ErrorCode}
    {found : Option α}
    {next : α → Step β}
    (taken : Results before (Step.require code found >>= next) (.ok result) after) :
    ∃ value, found = some value ∧ Results before (next value) (.ok result) after := by
  obtain ⟨value, between, required, rest⟩ := Results.bind_ok taken
  obtain ⟨isFound, rfl⟩ := Results.require_ok required
  exact ⟨value, isFound, rest⟩

/-- What follows the static type of an expression goes on with a type. -/
theorem Results.typeOf_bind
    {tree : Tree}
    {id : ExprId}
    {next : Ty → Step β}
    (taken : Results before (Step.typeOf tree id >>= next) (.ok result) after) :
    ∃ ty, Results before (next ty) (.ok result) after := by
  obtain ⟨ty, between, isType, rest⟩ := Results.bind_ok taken
  obtain ⟨-, rfl⟩ := Results.typeOf_ok isType
  exact ⟨ty, rest⟩

/-- What follows a part of the program that must be there goes on with it. -/
theorem Results.part_bind
    {found : Option α}
    {next : α → Step β}
    (taken : Results before (Step.part found >>= next) (.ok result) after) :
    ∃ value, found = some value ∧ Results before (next value) (.ok result) after := by
  obtain ⟨value, between, isPart, rest⟩ := Results.bind_ok taken
  cases found with
  | none => cases isPart
  | some other =>
      cases isPart
      exact ⟨value, rfl, rest⟩

/-- What follows an operation that can fail goes on with its result. -/
theorem Results.ofExcept_bind
    {checked : Except ErrorCode α}
    {next : α → Step β}
    (taken : Results before (Step.ofExcept checked >>= next) (.ok result) after) :
    ∃ value, checked = .ok value ∧ Results before (next value) (.ok result) after := by
  obtain ⟨value, between, isChecked, rest⟩ := Results.bind_ok taken
  cases checked with
  | error code => cases isChecked
  | ok other =>
      cases isChecked
      exact ⟨value, rfl, rest⟩

end Results

/-- No instance is made when an initial value is stored. -/
theorem storeDeclared_objects
    {cell : CellId}
    {value : Value}
    {source : Ty}
    {limits : Limits}
    (taken : Results before (Step.storeDeclared cell value source limits) (.ok ()) after) :
    after.world.heap.objects = before.world.heap.objects := by
  obtain ⟨⟨held, heap⟩, isBounded, placing⟩ :=
    Results.ofExcept_bind taken
  obtain ⟨_, _, placed, storing⟩ := Results.bind_ok placing
  cases placed
  obtain ⟨stored, -, rfl⟩ := Results.store_ok storing
  have objects := Heap.bounded_objects isBounded
  exact objects

/-- No instance is made when the initial value of a field is stored. -/
theorem storeField_objects
    {tree : Tree}
    {this : ObjectId}
    {frame : Frame}
    {fields : List FieldDef}
    {value : Value}
    (taken : Results before (Step.storeField tree this frame fields value) (.ok ()) after) :
    after.world.heap.objects = before.world.heap.objects := by
  obtain ⟨field, -, starting⟩ := Results.require_bind taken
  obtain ⟨initial, -, typing⟩ := Results.require_bind starting
  obtain ⟨source, reading⟩ := Results.typeOf_bind typing
  obtain ⟨_, _, current, placing⟩ := Results.bind_ok reading
  cases current
  obtain ⟨cell, -, storing⟩ := Results.require_bind placing
  exact storeDeclared_objects storing

/-! ## The next initial value -/

/-- A field without an initial value may get an array that is within its limits. -/
theorem setupFrom_skips
    {this : ObjectId}
    {frame : Frame}
    {field : FieldDef}
    {rest : List FieldDef}
    {move : Move}
    (plain : field.initial = none)
    (taken : Results before (Step.setupFrom this frame (field :: rest)) (.ok move) after) :
    ∃ between,
      between.world.heap.objects = before.world.heap.objects ∧
        Results between (Step.setupFrom this { frame with cursor := frame.cursor + 1 } rest)
          (.ok move) after := by
  unfold Step.setupFrom at taken
  rw [plain] at taken
  dsimp only at taken
  by_cases limited : field.limits.isEmpty = true
  · simp only [limited, Bool.not_true, Bool.false_eq_true, ↓reduceIte] at taken
    exact ⟨before, rfl, taken⟩
  · simp only [limited, Bool.not_false, ↓reduceIte] at taken
    obtain ⟨_, _, current, choosing⟩ := Results.bind_ok taken
    cases current
    obtain ⟨cell, -, allocating⟩ := Results.require_bind choosing
    obtain ⟨content, _, allocated, placing⟩ := Results.bind_ok allocating
    cases allocated
    obtain ⟨_, _, placed, rest⟩ := Results.bind_ok placing
    cases placed
    exact ⟨_, Heap.freshCell_objects _ _ _, rest⟩

/-- The fields of an instance are gone through up to the next one with an initial value. -/
theorem setupFrom_ok
    {this : ObjectId}
    {frame : Frame}
    {fields : List FieldDef}
    {move : Move}
    (short : frame.cursor.toNat + fields.length < UInt32.size)
    (taken : Results before (Step.setupFrom this frame fields) (.ok move) after) :
    after.world.heap.objects = before.world.heap.objects ∧
      (move = .complete .normal ∧ fields.filterMap (·.initial) = [] ∨
        ∃ front field behind initial cursor,
          fields = front ++ field :: behind ∧
            front.filterMap (·.initial) = [] ∧
            field.initial = some initial ∧
            cursor.toNat = frame.cursor.toNat + front.length ∧
            move = Step.pushExpression { frame with state := 1, cursor } initial .value) := by
  induction fields generalizing frame before with
  | nil =>
      cases taken
      exact ⟨rfl, .inl ⟨rfl, rfl⟩⟩
  | cons field rest inductionHypothesis =>
      cases plain : field.initial with
      | some initial =>
          unfold Step.setupFrom at taken
          rw [plain] at taken
          cases taken
          exact ⟨rfl, .inr ⟨[], field, rest, initial, frame.cursor, rfl, rfl, plain, rfl, rfl⟩⟩
      | none =>
          rw [List.length_cons] at short
          obtain ⟨between, same, taken⟩ := setupFrom_skips plain taken
          have counted : (frame.cursor + 1).toNat = frame.cursor.toNat + 1 :=
            UInt32.toNat_succ_of_lt (Nat.lt_succ_self _) (by omega)
          obtain ⟨objects, ended | begun⟩ :=
            inductionHypothesis (by simp only [counted]; omega) taken
          · refine ⟨objects.trans same, .inl ⟨ended.1, ?_⟩⟩
            rw [List.filterMap_cons_none plain, ended.2]
          · obtain ⟨front, next, behind, initial, cursor, rfl, others, isNext, place, rfl⟩ := begun
            refine ⟨objects.trans same, .inr ⟨field :: front, next, behind, initial, cursor, rfl,
              ?_, isNext, ?_, rfl⟩⟩
            · rw [List.filterMap_cons_none plain, others]
            · rw [place, counted, List.length_cons]
              omega

/-- Nothing but errors interrupts the way through the fields. -/
theorem Throws.setupFrom
    (this : ObjectId)
    (frame : Frame)
    (fields : List FieldDef) :
    Throws (Step.setupFrom this frame fields) := by
  induction fields generalizing frame with
  | nil => exact Gives.pure trivial
  | cons field rest inductionHypothesis =>
      unfold Step.setupFrom
      split
      · exact Gives.pure trivial
      · dsimp only
        split
        · refine behind (fun _ _ => .heap) fun heap => ?_
          refine behind (fun _ _ => .require _ _) fun cell => ?_
          exact behind (fun _ _ => .allocate _) fun content => behind (fun _ _ => .allocate _)
            fun _ => inductionHypothesis _
        · exact inductionHypothesis _

end Step

end BotScript
