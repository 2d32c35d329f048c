import BotScript.Machine.Setup
import BotScript.Proofs.ArrayGrowth
import Mathlib.Logic.Relation

namespace BotScript

/-!
# Declared limits

The limits of a declaration hold in every dimension as long as each array hands the limits that
are left to the arrays that are its elements.  Growth does.  A declaration with an initial value
has an array of its own, but its elements are the cells of the initial value: they keep the
limits that they have.
-/

/-- An array is no longer than its limit. -/
def ArrayData.WithinLimit (array : ArrayData) : Prop :=
  ∀ limit : UInt32, array.limits.head? = some (some limit) → array.items.size ≤ limit.toNat

namespace Heap

variable {tree : Tree} {heap after : Heap} {id outer inner : ArrayId}

/-- One array is an element of another one. -/
def Nests (heap : Heap) (outer inner : ArrayId) : Prop :=
  ∃ item ∈ (heap.array outer).items, (heap.cell item).value = .array inner

/-- Every array is within its limit, and its elements have the limits that are left. -/
structure Graded (heap : Heap) : Prop where
  limited : ∀ id : ArrayId, (heap.array id).WithinLimit
  handed :
    ∀ outer inner : ArrayId, heap.Nests outer inner →
      (heap.array inner).limits = (heap.array outer).limits.tail

/-- An array is found in another one, through a number of levels of elements. -/
inductive Nested (heap : Heap) : ArrayId → Nat → ArrayId → Prop where
  | itself
      (id : ArrayId) :
      Nested heap id 0 id
  | element
      {outer inner last : ArrayId}
      {levels : Nat} :
      heap.Nests outer inner →
      Nested heap inner levels last →
      Nested heap outer (levels + 1) last

/-- The limits of an array hold at every level of its elements. -/
theorem Graded.limits_of_nested
    {levels : Nat}
    (graded : heap.Graded)
    (nested : heap.Nested outer levels inner) :
    (heap.array inner).limits = (heap.array outer).limits.drop levels ∧
      ∀ limit : UInt32, (heap.array outer).limits[levels]? = some (some limit) →
        (heap.array inner).items.size ≤ limit.toNat := by
  have handed : (heap.array inner).limits = (heap.array outer).limits.drop levels := by
    induction nested with
    | itself id => rfl
    | element nests nested inductionHypothesis =>
        rw [inductionHypothesis, graded.handed _ _ nests, List.drop_tail]
  refine ⟨handed, fun limit isLimit => graded.limited inner limit ?_⟩
  rw [handed, List.head?_drop, isLimit]

/-! ## What keeps the limits -/

/-- To place an array leaves the others. -/
theorem array_addArray_of_ne
    {array : ArrayData}
    (differ : id ≠ (heap.addArray array).1) :
    (heap.addArray array).2.array id = heap.array id := by
  have apart : id.index ≠ heap.arrays.size := fun same =>
    differ (by cases id; exact congrArg ArrayId.mk same)
  simp [Heap.array, addArray, Array.getElem?_push, apart]

/-- An array that does not exist has no elements. -/
theorem items_of_unknown
    (unknown : heap.arrays.size ≤ id.index) :
    (heap.array id).items = #[] := by
  unfold array
  rw [Array.getElem?_eq_none unknown]
  rfl

/-- A default of an array type is an array of its own without elements. -/
theorem HoldsDefault.iff_of_element
    {element inner : Ty}
    {limits : Limits}
    {cell : CellId}
    (isElement : element.element? = some inner) :
    heap.HoldsDefault element limits id cell ↔
      heap.cell cell = .withDefault element (.array id) ∧
        heap.array id = .empty inner limits := by
  cases element <;> cases isElement
  exact Iff.rfl

/-- A default that is an array has the limits that are left. -/
theorem HoldsDefault.limits
    {element : Ty}
    {limits : Limits}
    {cell : CellId}
    (holds : heap.HoldsDefault element limits id cell)
    (isArray : (heap.cell cell).value = .array inner) :
    (heap.array inner).limits = limits := by
  cases element with
  | array element =>
      obtain ⟨isCell, isEmpty⟩ := holds
      rw [isCell] at isArray
      cases isArray
      rw [isEmpty]
      rfl
  | _ =>
      rw [show heap.cell cell = .zeroed _ from holds] at isArray
      cases isArray

/-- An array that comes with a new element has no elements. -/
theorem Extends.items_of_unknown
    {count : Nat}
    {other : ArrayId}
    (grows : heap.Extends after id count)
    (unknown : heap.arrays.size ≤ other.index) :
    (after.array other).items = #[] := by
  by_cases isNew : other.index < after.arrays.size
  · obtain ⟨position, isPosition⟩ := Nat.exists_eq_add_of_le unknown
    have arrayCount := grows.arrayCount
    unfold nestedCount at arrayCount
    split at arrayCount
    · next nests =>
      obtain ⟨inner, isElement⟩ := Option.isSome_iff_exists.mp nests
      have holds := grows.defaults position (by omega)
      rw [HoldsDefault.iff_of_element isElement] at holds
      have same : other = ⟨heap.arrays.size + position⟩ := by
        cases other
        exact congrArg ArrayId.mk isPosition
      rw [same, holds.2]
      rfl
    · omega
  · exact Heap.items_of_unknown (Nat.le_of_not_lt isNew)

/-- An array that is an element exists. -/
theorem Nests.known
    (sound : heap.Sound tree)
    (nests : heap.Nests outer inner) :
    inner.index < heap.arrays.size := by
  obtain ⟨item, -, isArray⟩ := nests
  have covered := sound.cell item
  rw [isArray] at covered
  exact covered _ (List.mem_singleton_self _)

/-- No array has other limits than before. -/
theorem Extends.limits_of_known
    {count : Nat}
    {other : ArrayId}
    (grows : heap.Extends after id count)
    (known : other.index < heap.arrays.size) :
    (after.array other).limits = (heap.array other).limits := by
  by_cases same : other = id
  · exact same ▸ grows.limits
  · rw [grows.arrays other same known]

/-- An element of an array was one before, or it is new. -/
theorem Extends.mem_items
    {count : Nat}
    {other : ArrayId}
    {item : CellId}
    (grows : heap.Extends after id count)
    (known : other.index < heap.arrays.size)
    (member : item ∈ (after.array other).items) :
    item ∈ (heap.array other).items ∨
      other = id ∧ ∃ position < count, item = ⟨heap.cells.size + position⟩ := by
  by_cases same : other = id
  · rw [same, ← Array.mem_toList_iff, grows.items, List.mem_append,
      Array.mem_toList_iff] at member
    obtain former | new := member
    · exact .inl (same ▸ former)
    · obtain ⟨index, inside, rfl⟩ := List.mem_map.mp new
      obtain ⟨first, last⟩ := List.mem_range'_1.mp inside
      exact .inr ⟨same, index - heap.cells.size, by omega, congrArg CellId.mk (by omega)⟩
  · exact .inl (grows.arrays other same known ▸ member)

namespace Graded

variable (graded : heap.Graded)

include graded

/-- Cells may change as long as their arrays have the limits that are left. -/
theorem ofCells
    (arrays : after.arrays = heap.arrays)
    (cells :
      ∀ outer inner : ArrayId, ∀ item ∈ (heap.array outer).items,
        (after.cell item).value = .array inner →
          (heap.array inner).limits = (heap.array outer).limits.tail) :
    after.Graded := by
  have same (id : ArrayId) : after.array id = heap.array id := by
    rw [array, array, arrays]
  refine ⟨fun id => same id ▸ graded.limited id, fun outer inner nests => ?_⟩
  obtain ⟨item, member, isArray⟩ := nests
  rw [same] at member
  rw [same, same]
  exact cells outer inner item member isArray

variable (sound : heap.Sound tree)

include sound

/-- A cell is placed. -/
theorem addCell
    (cell : Cell) :
    (heap.addCell cell).2.Graded := by
  refine graded.ofCells rfl fun outer inner item member isArray => ?_
  rw [cell_addCell_of_lt ((sound.array outer).items item member)] at isArray
  exact graded.handed outer inner ⟨item, member, isArray⟩

/-- A cell is replaced; an array that it then holds has the limits that are left. -/
theorem setCell
    {id : CellId}
    {cell : Cell}
    (suits :
      ∀ outer inner : ArrayId, id ∈ (heap.array outer).items → cell.value = .array inner →
        (heap.array inner).limits = (heap.array outer).limits.tail) :
    (heap.setCell id cell).Graded := by
  refine graded.ofCells rfl fun outer inner item member isArray => ?_
  by_cases same : item = id
  · subst same
    rw [cell_setCell ((sound.array outer).items item member)] at isArray
    exact suits outer inner member isArray
  · rw [cell_setCell_of_ne same] at isArray
    exact graded.handed outer inner ⟨item, member, isArray⟩

/--
An array is placed.  The limits hold just when it is within its own, and its elements have
those that are left.
-/
theorem addArray_iff
    {array : ArrayData} :
    (heap.addArray array).2.Graded ↔
      array.WithinLimit ∧
        ∀ item ∈ array.items, ∀ inner : ArrayId, (heap.cell item).value = .array inner →
          (heap.array inner).limits = array.limits.tail := by
  have kept (inner : ArrayId) {item : CellId} (isArray : (heap.cell item).value = .array inner) :
      (heap.addArray array).2.array inner = heap.array inner := by
    have covered := sound.cell item
    rw [isArray] at covered
    exact array_addArray_of_lt (covered _ (List.mem_singleton_self _))
  constructor
  · intro placed
    have limited := placed.limited (heap.addArray array).1
    rw [array_addArray] at limited
    refine ⟨limited, fun item member inner isArray => ?_⟩
    have handed := placed.handed (heap.addArray array).1 inner
      ⟨item, by rwa [array_addArray], isArray⟩
    rwa [array_addArray, kept inner isArray] at handed
  · rintro ⟨limited, handed⟩
    refine ⟨fun id => ?_, fun outer inner nests => ?_⟩
    · by_cases isNew : id = (heap.addArray array).1
      · rwa [isNew, array_addArray]
      · rw [array_addArray_of_ne isNew]
        exact graded.limited id
    · obtain ⟨item, member, isArray⟩ := nests
      change (heap.cell item).value = .array inner at isArray
      rw [kept inner isArray]
      by_cases isNew : outer = (heap.addArray array).1
      · rw [isNew, array_addArray] at member ⊢
        exact handed item member inner isArray
      · rw [array_addArray_of_ne isNew] at member ⊢
        exact graded.handed outer inner ⟨item, member, isArray⟩

/-- An array grows within its limit. -/
theorem extended
    {count : Nat}
    (grows : heap.Extends after id count)
    (limited : (after.array id).WithinLimit) :
    after.Graded := by
  refine ⟨fun other => ?_, fun outer inner nests => ?_⟩
  · by_cases same : other = id
    · exact same ▸ limited
    by_cases known : other.index < heap.arrays.size
    · exact grows.arrays other same known ▸ graded.limited other
    · intro limit isLimit
      rw [grows.items_of_unknown (Nat.le_of_not_lt known)]
      exact Nat.zero_le _
  · obtain ⟨item, member, isArray⟩ := nests
    by_cases known : outer.index < heap.arrays.size
    · obtain former | ⟨rfl, position, isNew, rfl⟩ := grows.mem_items known member
      · have nests : heap.Nests outer inner :=
          ⟨item, former, grows.cells item ((sound.array outer).items item former) ▸ isArray⟩
        rw [grows.limits_of_known (nests.known sound), grows.limits_of_known known]
        exact graded.handed outer inner nests
      · rw [(grows.defaults position isNew).limits isArray, grows.limits]
    · rw [grows.items_of_unknown (Nat.le_of_not_lt known)] at member
      exact absurd member (Array.not_mem_empty item)

/-- An array is written, and may grow for it. -/
theorem write
    (known : id.index < heap.arrays.size)
    (index : Int64) :
    ((ArrayCall.write index).run heap id).2.Graded := by
  have has : heap.HasArray (heap.array id).element (heap.array id).limits id :=
    ⟨known, rfl, rfl, sound.array id, graded.limited id⟩
  obtain ⟨answered, refused⟩ := has.answers_write index
  by_cases allowed :
      (ArrayCall.write index).Allowed (heap.array id).limits (heap.array id).items.size
  · obtain ⟨cell, -, effect⟩ := answered allowed
    obtain ⟨-, grows, -, -⟩ : _ ∧ _ ∧ _ ∧ _ := effect
    have isKnown : (ArrayCall.write index).Known heap := trivial
    obtain ⟨written, -⟩ := has.called isKnown
    refine graded.extended sound grows fun limit isLimit => written.limited limit ?_
    rwa [written.hasLimits] at isLimit
  · rwa [refused allowed]

/-- The content of a variable that is declared without a value. -/
theorem freshCell
    (ty : Ty)
    (limits : Limits) :
    (heap.freshCell ty limits).2.Graded := by
  unfold Heap.freshCell
  split
  · split
    · exact graded
    · exact (graded.addArray_iff sound).mpr
        ⟨fun _ _ => Nat.zero_le _, fun item member => absurd member (Array.not_mem_empty item)⟩
  · exact graded

/-- A variable is declared without a value. -/
theorem addFresh
    (ty : Ty)
    (limits : Limits) :
    (heap.addFresh ty limits).2.Graded :=
  (graded.freshCell sound ty limits).addCell (sound.freshCell ty limits).1.sound _

end Graded

end Heap

/-! ## Initial values -/

/-- An array with some limits can have a number of elements. -/
def Limits.Allow (limits : Limits) (size : Nat) : Prop :=
  size ≤ ArrayData.greatestIndex + 1 ∧
    ∀ limit : UInt32, limits.head? = some (some limit) → size ≤ limit.toNat

/-- An array with other limits. -/
def ArrayData.limitedTo (array : ArrayData) (limits : Limits) : ArrayData :=
  { array with limits }

namespace Limits

variable {limits : Limits} {size smaller : Nat}

/-- What can have some elements can have fewer. -/
theorem Allow.mono
    (allowed : limits.Allow size)
    (fewer : smaller ≤ size) :
    limits.Allow smaller :=
  ⟨Nat.le_trans fewer allowed.1,
    fun limit isLimit => Nat.le_trans fewer (allowed.2 limit isLimit)⟩

/-- One element more is allowed where its position is admitted. -/
theorem allow_succ_iff :
    limits.Allow (size + 1) ↔ size ≤ ArrayData.greatestIndex ∧ Limits.Admit limits size :=
  and_congr Nat.succ_le_succ_iff Iff.rfl

end Limits

namespace Heap

variable {tree : Tree} {heap : Heap} {id source : ArrayId} {cell : CellId} {cells : List CellId}

/-- To replace the array that was placed last is to place another one. -/
theorem setArray_addArray
    (heap : Heap)
    (array other : ArrayData) :
    (heap.addArray array).2.setArray (heap.addArray array).1 other = (heap.addArray other).2 := by
  simp [addArray, setArray, Array.setIfInBounds_def, Array.set_push]

/-- A cell is appended to the array that was placed last, if it can have one more. -/
theorem pushElement_addArray
    {array : ArrayData}
    (allowed : array.limits.Allow (array.items.size + 1)) :
    (heap.addArray array).2.pushElement (heap.addArray array).1 cell =
      .ok (heap.addArray { array with items := array.items.push cell }).2 := by
  obtain ⟨small, admitted⟩ := Limits.allow_succ_iff.mp allowed
  rw [pushElement_of_allowed, array_addArray, setArray_addArray]
  · rwa [array_addArray]
  · rwa [array_addArray]

/-- Cells are appended to the array that was placed last, if it can have all of them. -/
theorem pushElements_of_allowed
    {array : ArrayData}
    (allowed : array.limits.Allow (array.items.size + cells.length)) :
    (heap.addArray array).2.pushElements (heap.addArray array).1 cells =
      .ok (heap.addArray { array with items := array.items ++ cells.toArray }).2 := by
  induction cells generalizing array with
  | nil => simp [pushElements]
  | cons cell cells inductionHypothesis =>
      have first : array.limits.Allow (array.items.size + 1) :=
        allowed.mono (Nat.add_le_add_left (Nat.le_add_left 1 cells.length) _)
      have rest : array.limits.Allow ((array.items.push cell).size + cells.length) :=
        allowed.mono (by rw [Array.size_push, List.length_cons]; omega)
      have pushed := @inductionHypothesis { array with items := array.items.push cell } rest
      unfold pushElements
      rw [pushElement_addArray first]
      refine pushed.trans ?_
      simp

/-- Not all of the cells are appended to the array that was placed last if it cannot have them. -/
theorem pushElements_of_refused
    {array : ArrayData}
    (allowed : array.limits.Allow array.items.size)
    (refused : ¬ array.limits.Allow (array.items.size + cells.length)) :
    (heap.addArray array).2.pushElements (heap.addArray array).1 cells = .error .outsideArray := by
  induction cells generalizing array with
  | nil => exact absurd allowed refused
  | cons cell cells inductionHypothesis =>
      unfold pushElements
      by_cases first : array.limits.Allow (array.items.size + 1)
      · rw [pushElement_addArray first]
        refine @inductionHypothesis { array with items := array.items.push cell } ?_ ?_
        · rwa [Array.size_push]
        · rw [Array.size_push, Nat.add_assoc, Nat.add_comm 1]
          exact refused
      · rw [pushElement_of_refused]
        · rfl
        · rwa [array_addArray, ← Limits.allow_succ_iff]

/--
An array that is an initial value goes into a new one with the declared limits, if it can have
so many elements.  The elements are the same cells.
-/
theorem bounded_of_allowed
    {limit : UInt32}
    {rest : Limits}
    (allowed : Limits.Allow (some limit :: rest) (heap.array source).items.size) :
    heap.bounded (.array source) (some limit :: rest) =
      .ok (.array ⟨heap.arrays.size⟩,
        (heap.addArray ((heap.array source).limitedTo (some limit :: rest))).2) := by
  have pushed :=
    @pushElements_of_allowed heap (heap.array source).items.toList
      (.empty (heap.array source).element (some limit :: rest))
      (by simpa [ArrayData.empty] using allowed)
  unfold bounded
  dsimp only
  rw [pushed]
  simp [ArrayData.empty, ArrayData.limitedTo, addArray, pure, Except.pure, bind, Except.bind]

/-- An array with more elements is refused. -/
theorem bounded_of_refused
    {limit : UInt32}
    {rest : Limits}
    (refused : ¬ Limits.Allow (some limit :: rest) (heap.array source).items.size) :
    heap.bounded (.array source) (some limit :: rest) = .error .outsideArray := by
  have pushed :=
    @pushElements_of_refused heap (heap.array source).items.toList
      (.empty (heap.array source).element (some limit :: rest))
      ⟨Nat.zero_le _, fun _ _ => Nat.zero_le _⟩
      (by simpa [ArrayData.empty] using refused)
  unfold bounded
  dsimp only
  rw [pushed]
  rfl

/-- Without a first limit an initial value is what is held. -/
theorem bounded_of_unlimited
    {limits : Limits}
    (unlimited : limits.head?.join = none)
    (value : Value) :
    heap.bounded value limits = .ok (value, heap) := by
  unfold bounded
  split
  · cases unlimited
  · rfl

/--
A declaration with an initial value has limits in every dimension just when the elements of the
initial value have those that are left.
-/
theorem bounded_graded_iff
    {after : Heap}
    {value : Value}
    {limit : UInt32}
    {rest : Limits}
    (graded : heap.Graded)
    (sound : heap.Sound tree)
    (isBounded : heap.bounded (.array source) (some limit :: rest) = .ok (value, after)) :
    after.Graded ↔
      ∀ inner : ArrayId, heap.Nests source inner → (heap.array inner).limits = rest := by
  by_cases allowed : Limits.Allow (some limit :: rest) (heap.array source).items.size
  · rw [bounded_of_allowed allowed] at isBounded
    cases isBounded
    rw [graded.addArray_iff sound]
    constructor
    · rintro ⟨-, handed⟩ inner ⟨item, member, isArray⟩
      exact handed item member inner isArray
    · intro suits
      refine ⟨fun bound isBound => allowed.2 bound isBound, fun item member inner isArray => ?_⟩
      exact suits inner ⟨item, member, isArray⟩
  · rw [bounded_of_refused allowed] at isBounded
    cases isBounded

/-- The rows of an initial value have no limits, whatever the declaration says. -/
example :
    (Heap.bounded
        ⟨#[⟨.int, .int 1, .defined⟩, ⟨.array .int, .array ⟨0⟩, .defined⟩],
          #[⟨.int, [], #[⟨0⟩]⟩, ⟨.array .int, [], #[⟨1⟩]⟩], #[]⟩
        (.array ⟨1⟩) [some 2, some 3]).toOption.map
          (fun placed => placed.2.arrays.toList.map (·.limits)) =
      some [[], [], [some 2, some 3]] := by
  decide

/--
One change of the heap by a program that makes arrays elements only where they have the limits
that are left.
-/
inductive Fills (tree : Tree) (heap : Heap) : Heap → Prop where
  | declares
      (ty : Ty)
      (limits : Limits) :
      heap.Sound tree →
      Fills tree heap (heap.addFresh ty limits).2
  | places
      (cell : Cell) :
      heap.Sound tree →
      Fills tree heap (heap.addCell cell).2
  | writes
      (id : ArrayId)
      (index : Int64) :
      heap.Sound tree →
      id.index < heap.arrays.size →
      Fills tree heap ((ArrayCall.write index).run heap id).2
  | stores
      (id : CellId)
      (cell : Cell) :
      heap.Sound tree →
      (∀ outer inner : ArrayId, id ∈ (heap.array outer).items → cell.value = .array inner →
        (heap.array inner).limits = (heap.array outer).limits.tail) →
      Fills tree heap (heap.setCell id cell)
  | initializes
      {source : ArrayId}
      {limit : UInt32}
      {rest : Limits}
      {value : Value}
      {after : Heap} :
      heap.Sound tree →
      (∀ inner : ArrayId, heap.Nests source inner → (heap.array inner).limits = rest) →
      heap.bounded (.array source) (some limit :: rest) = .ok (value, after) →
      Fills tree heap after

/-- Each of these changes keeps the limits. -/
theorem Fills.graded
    {after : Heap}
    (fills : heap.Fills tree after)
    (graded : heap.Graded) :
    after.Graded := by
  cases fills with
  | declares ty limits sound => exact graded.addFresh sound ty limits
  | places cell sound => exact graded.addCell sound cell
  | writes id index sound known => exact graded.write sound known index
  | stores id cell sound suits => exact graded.setCell sound suits
  | initializes sound suits isBounded => exact (bounded_graded_iff graded sound isBounded).mpr suits

/-- However long such a program runs, it keeps the limits. -/
theorem Graded.ofRun
    {after : Heap}
    (graded : heap.Graded)
    (run : Relation.ReflTransGen (Fills tree) heap after) :
    after.Graded := by
  induction run with
  | refl => exact graded
  | tail _ fills inductionHypothesis => exact fills.graded inductionHypothesis

end Heap

/-- An array is stored into a cell of an array type as it is. -/
theorem Cell.stored_array
    {cell : Cell}
    {element : Ty}
    (isArray : cell.ty = .array element)
    (heap : Heap)
    (inUse : Option CellId)
    (array : ArrayId)
    (source : Ty) :
    cell.stored heap inUse (.array array) source =
      .ok ⟨.array element, .array array, .defined⟩ := by
  unfold Cell.stored
  rw [isArray]
  rfl

namespace Step

variable {memory : Memory} {cell : CellId} {source : ArrayId} {element ty : Ty} {limit : UInt32}
  {rest : Limits}

/-- A declared variable gets an array of its own, over the cells of the initial value. -/
theorem storeDeclared_of_allowed
    (isArray : (memory.world.heap.cell cell).ty = .array element)
    (allowed :
      Limits.Allow (some limit :: rest) (memory.world.heap.array source).items.size) :
    Results memory (Step.storeDeclared cell (.array source) ty (some limit :: rest)) (.ok ())
      (memory.withHeap
        ((memory.world.heap.addArray
          ((memory.world.heap.array source).limitedTo (some limit :: rest))).2.setCell cell
            ⟨.array element, .array ⟨memory.world.heap.arrays.size⟩, .defined⟩)) := by
  refine .bind .heap ?_
  rw [Heap.bounded_of_allowed allowed]
  have replaced (heap : Heap) :
      Results memory (Step.setHeap heap) (.ok ()) (memory.withHeap heap) :=
    rfl
  refine .bind (.ofExcept (.ok _)) (.bind (replaced _) (.store ?_))
  exact Cell.stored_array isArray _ _ _ _

/-- A declared variable does not get an array that is longer than its limit. -/
theorem storeDeclared_of_refused
    (refused :
      ¬ Limits.Allow (some limit :: rest) (memory.world.heap.array source).items.size) :
    Results memory (Step.storeDeclared cell (.array source) ty (some limit :: rest))
      (.error (.fault (.error .outsideArray))) memory := by
  refine .bind .heap ?_
  rw [Heap.bounded_of_refused refused]
  exact .stop (.ofExcept _)

end Step

end BotScript
