import BotScript.Proofs.TypedValues
import BotScript.Proofs.WellFormedTrees

namespace BotScript

/-!
# Assignable types

The compiler decides which types are assignable from the table of classes; a store at run time
looks at the form of the value and at the names in the layout of its instance.  Both agree: an
assignable value is always converted, and an instance is kept exactly when its class inherits
from the target.
-/

/-! ## Ancestors -/

namespace Tree

variable {tree : Tree}

/-- A class with a parent is in the table of classes. -/
theorem Inherits.inside
    {id parent : ClassId}
    (inherits : tree.Inherits id parent) :
    id.index < tree.classes.size := by
  by_contra outside
  have missing : tree.class? id = none := Array.getElem?_eq_none (Nat.le_of_not_lt outside)
  unfold Inherits classDef at inherits
  rw [missing] at inherits
  cases inherits

/-- There are no more different classes in a table than its size says. -/
theorem card_classes_le
    {ids : Finset ClassId}
    (inside : ∀ id ∈ ids, id.index < tree.classes.size) :
    ids.card ≤ tree.classes.size := by
  have injective : Set.InjOn (fun id : ClassId => id.index) ids := by
    rintro ⟨first⟩ - ⟨second⟩ - same
    exact congrArg Id.mk (UInt32.toNat_inj.mp same)
  calc ids.card
      = (ids.image fun id => id.index).card := (Finset.card_image_of_injOn injective).symm
    _ ≤ (Finset.range tree.classes.size).card := by
        refine Finset.card_le_card fun index member => ?_
        obtain ⟨id, isMember, rfl⟩ := Finset.mem_image.mp member
        exact Finset.mem_range.mpr (inside id isMember)
    _ = tree.classes.size := Finset.card_range _

/--
A chain misses no ancestor when its bound counts the classes that have not been passed.  What
has been passed inherits from the class, so without circles the class itself is not among it.
-/
theorem mem_chainWithin
    (acyclic : ∀ id, ¬ Relation.TransGen tree.Inherits id id)
    {bound : Nat}
    {id ancestor : ClassId}
    (passed : Finset ClassId)
    (descend : ∀ other ∈ passed, Relation.TransGen tree.Inherits other id)
    (room : tree.classes.size ≤ passed.card + bound)
    (reaches : Relation.ReflTransGen tree.Inherits id ancestor) :
    ancestor ∈ tree.chainWithin bound id := by
  induction bound generalizing id passed with
  | zero =>
      obtain rfl | ⟨parent, inherits, -⟩ := Relation.ReflTransGen.cases_head reaches
      · exact List.mem_singleton.mpr rfl
      · have isNew : id ∉ passed := fun member => acyclic id (descend id member)
        have tooMany : (insert id passed).card ≤ tree.classes.size := by
          refine card_classes_le fun other member => ?_
          obtain rfl | isPassed := Finset.mem_insert.mp member
          · exact inherits.inside
          · obtain ⟨_, first, -⟩ := Relation.TransGen.head'_iff.mp (descend other isPassed)
            exact first.inside
        rw [Finset.card_insert_of_notMem isNew] at tooMany
        omega
  | succ bound inductionHypothesis =>
      rw [chainWithin]
      obtain rfl | ⟨parent, inherits, reaches⟩ := Relation.ReflTransGen.cases_head reaches
      · split <;> exact List.mem_cons_self
      · have isNew : id ∉ passed := fun member => acyclic id (descend id member)
        rw [show (tree.classDef id).parent = some parent from inherits]
        refine List.mem_cons_of_mem _ (inductionHypothesis (insert id passed) ?_ ?_ reaches)
        · intro other member
          obtain rfl | isPassed := Finset.mem_insert.mp member
          · exact .single inherits
          · exact (descend other isPassed).tail inherits
        · rw [Finset.card_insert_of_notMem isNew]
          omega

/-- A chain has only ancestors. -/
theorem reaches_of_mem_chainWithin
    {bound : Nat}
    {id ancestor : ClassId}
    (member : ancestor ∈ tree.chainWithin bound id) :
    Relation.ReflTransGen tree.Inherits id ancestor := by
  induction bound generalizing id with
  | zero =>
      obtain rfl := List.mem_singleton.mp member
      exact .refl
  | succ bound inductionHypothesis =>
      rw [chainWithin] at member
      split at member
      · next parent isParent =>
        obtain rfl | member := List.mem_cons.mp member
        · exact .refl
        · exact .head isParent (inductionHypothesis member)
      · obtain rfl := List.mem_singleton.mp member
        exact .refl

/-- Without circles, the chain of a class has the class and all that it inherits from. -/
theorem mem_classChain_iff
    (acyclic : ∀ id, ¬ Relation.TransGen tree.Inherits id id)
    {id ancestor : ClassId} :
    ancestor ∈ tree.classChain id ↔ Relation.ReflTransGen tree.Inherits id ancestor :=
  ⟨reaches_of_mem_chainWithin,
    mem_chainWithin acyclic ∅ (by simp) (Nat.le_of_eq (by simp))⟩

/-- A layout has the name of a class exactly when the class inherits from one of that name. -/
theorem layout_isA_iff
    (acyclic : ∀ id, ¬ Relation.TransGen tree.Inherits id id)
    {owner : ClassId}
    {layout : ClassLayout}
    (found : tree.layout? owner = some layout)
    (className : String) :
    layout.isA className = true ↔
      ∃ ancestor, Relation.ReflTransGen tree.Inherits owner ancestor ∧
        (tree.classDef ancestor).name = className := by
  obtain ⟨_, -, rfl⟩ := Option.map_eq_some_iff.mp found
  simp [ClassLayout.isA, ← mem_classChain_iff acyclic]

end Tree

/-! ## Conversions of assignable types -/

namespace Tree

variable {tree : Tree} {source target : Ty}

/-- The pairs of types of which one can be assigned to the other. -/
theorem isAssignable_cases
    (assignable : tree.isAssignable source target = true) :
    target = .string ∨ source = target ∨
      source.isNumeric = true ∧ target.isNumeric = true ∨
      source = .null ∧ target.isReference = true ∨
      ∃ first second, source = .object first ∧ target = .object second := by
  unfold isAssignable conversionCost? at assignable
  split at assignable
  · next same => exact .inr (.inl same)
  · split at assignable
    · cases assignable
    · cases assignable
    · exact .inl rfl
    · exact .inr (.inr (.inr (.inl ⟨rfl, rfl⟩)))
    · exact .inr (.inr (.inr (.inl ⟨rfl, rfl⟩)))
    · exact .inr (.inr (.inr (.inr ⟨_, _, rfl, rfl⟩)))
    · split at assignable
      · next sourceRank targetRank isSource isTarget =>
        exact .inr (.inr (.inl ⟨by rw [Ty.isNumeric, isSource]; rfl,
          by rw [Ty.isNumeric, isTarget]; rfl⟩))
      · cases assignable

/--
A value of a type that is assignable to another one is converted to a value of that type.  Only
a value that is to become a text and contains itself has no conversion.
-/
theorem assignable_converts
    {heap : Heap}
    {value : Value}
    (assignable : tree.isAssignable source target = true)
    (form : heap.HasForm source value) :
    heap.Converts value source target ∨ heap.Endless value source target := by
  by_cases isText : target = .string
  · exact isText ▸ Heap.converts_text form
  · refine .inl ?_
    obtain isString | rfl | ⟨fromNumber, toNumber⟩ | ⟨rfl, isReference⟩ |
      ⟨first, second, rfl, rfl⟩ := isAssignable_cases assignable
    · exact absurd isString isText
    · exact Heap.converts_same form isText
    · exact Heap.converts_number form fromNumber toNumber
    · cases form with
      | null _ =>
          cases target <;> first | exact ⟨_, rfl, .null isReference⟩ | cases isReference
      | nan isScalar => simp [Ty.isNumeric, Ty.numericRank?] at isScalar
      | int _ isInteger => cases isInteger
      | float _ isFloating => cases isFloating
    · exact Heap.converts_object form

/--
A reference to an instance of a class of the program is kept by a conversion to another class
exactly when its own class inherits from that one, and becomes null otherwise.
-/
theorem convert_instance
    (acyclic : ∀ id, ¬ Relation.TransGen tree.Inherits id id)
    {heap : Heap}
    {id : ObjectId}
    {owner : ClassId}
    (found : tree.layout? owner = some (heap.object id).layout)
    (source : Ty)
    (className : String) :
    ((∃ ancestor, Relation.ReflTransGen tree.Inherits owner ancestor ∧
        (tree.classDef ancestor).name = className) →
      heap.convert (.object id) source (.object className) = .ok (.object id)) ∧
    ((¬ ∃ ancestor, Relation.ReflTransGen tree.Inherits owner ancestor ∧
        (tree.classDef ancestor).name = className) →
      heap.convert (.object id) source (.object className) = .ok .null) := by
  rw [← layout_isA_iff acyclic found]
  exact ⟨fun inherits => congrArg Except.ok (if_pos inherits),
    fun strange => congrArg Except.ok (if_neg strange)⟩

end Tree

end BotScript
