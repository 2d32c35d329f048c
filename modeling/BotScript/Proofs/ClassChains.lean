import BotScript.Proofs.TreeGrowth
import Mathlib.Data.List.Nodup
import Mathlib.Data.List.Perm.Subperm

namespace BotScript

/-!
# Chains of classes

The chain of a class is followed for as many steps as there are classes.  When the
ancestors of a class end, this is far enough: the chain then leads up to a class without
a parent, the chain of every ancestor is the rest of it, and a tree that grows does not
change it.
-/

/-- A class whose ancestors end with a class that has no parent. -/
inductive Tree.Rooted (tree : Tree) : ClassId → Prop where
  | top {id : ClassId} : (tree.classDef id).parent = none → Rooted tree id
  | under {id parent : ClassId} :
      (tree.classDef id).parent = some parent → Rooted tree parent → Rooted tree id

namespace Tree

variable {tree : Tree} {id ancestor : ClassId} {chain : List ClassId}

/-- The parents of classes are in the tree. -/
def ParentsInside (tree : Tree) : Prop :=
  ∀ entry ∈ tree.classes, ∀ parent ∈ entry.parent, parent.index < tree.classes.size

/-- The parent of a class of the tree is in the tree. -/
theorem ParentsInside.parent
    {parent : ClassId}
    (parents : tree.ParentsInside)
    (inside : id.index < tree.classes.size)
    (isParent : (tree.classDef id).parent = some parent) :
    parent.index < tree.classes.size := by
  refine parents (tree.classDef id) ?_ parent isParent
  rw [classDef, class?, Array.getElem?_eq_getElem inside]
  exact Array.getElem_mem inside

/-- The chain of a class of the tree has classes of the tree only. -/
theorem ParentsInside.classChain
    (parents : tree.ParentsInside)
    (inside : id.index < tree.classes.size) :
    ∀ passed ∈ tree.classChain id, passed.index < tree.classes.size := by
  have within (bound : Nat) (id : ClassId) (inside : id.index < tree.classes.size) :
      ∀ passed ∈ tree.chainWithin bound id, passed.index < tree.classes.size := by
    induction bound generalizing id with
    | zero => exact List.forall_mem_singleton.mpr inside
    | succ bound inductionHypothesis =>
        rw [chainWithin]
        split
        · next parent isParent =>
          exact List.forall_mem_cons.mpr
            ⟨inside, inductionHypothesis parent (parents.parent inside isParent)⟩
        · exact List.forall_mem_singleton.mpr inside
  exact within _ id inside

/-- The classes from one up to a class that has no parent. -/
inductive Ascends (tree : Tree) : ClassId → List ClassId → Prop where
  | top {id : ClassId} : (tree.classDef id).parent = none → Ascends tree id [id]
  | under {id parent : ClassId} {above : List ClassId} :
      (tree.classDef id).parent = some parent → Ascends tree parent above →
      Ascends tree id (id :: above)

/-- A class that is not in the tree has no parent. -/
theorem inside_of_parent
    {parent : ClassId}
    (isParent : (tree.classDef id).parent = some parent) :
    id.index < tree.classes.size := by
  by_contra outside
  rw [classDef, class?, Array.getElem?_eq_none (Nat.le_of_not_lt outside)] at isParent
  cases isParent

/-- From a class whose ancestors end, there is a way up. -/
theorem Rooted.ascends
    (rooted : tree.Rooted id) :
    ∃ chain, tree.Ascends id chain := by
  induction rooted with
  | top isTop => exact ⟨_, .top isTop⟩
  | under isParent _ inductionHypothesis =>
      obtain ⟨above, ascends⟩ := inductionHypothesis
      exact ⟨_, .under isParent ascends⟩

namespace Ascends

/-- There is only one way up. -/
theorem unique
    {other : List ClassId}
    (first : tree.Ascends id chain)
    (second : tree.Ascends id other) :
    chain = other := by
  induction first generalizing other with
  | top isTop =>
      cases second with
      | top => rfl
      | under isParent => cases isTop.symm.trans isParent
  | under isParent _ inductionHypothesis =>
      cases second with
      | top isTop => cases isTop.symm.trans isParent
      | under isOther above =>
          cases isParent.symm.trans isOther
          rw [inductionHypothesis above]

variable (ascends : tree.Ascends id chain)

include ascends

/-- The way up from a class that is passed is the rest of the way. -/
theorem suffix
    (passed : ancestor ∈ chain) :
    ∃ rest, tree.Ascends ancestor rest ∧ rest <:+ chain := by
  induction ascends with
  | top isTop =>
      obtain rfl := List.mem_singleton.mp passed
      exact ⟨_, .top isTop, List.suffix_rfl⟩
  | @under id parent above isParent ascends inductionHypothesis =>
      obtain rfl | passed := List.mem_cons.mp passed
      · exact ⟨_, .under isParent ascends, List.suffix_rfl⟩
      · obtain ⟨rest, onward, isRest⟩ := inductionHypothesis passed
        exact ⟨rest, onward, isRest.trans (List.suffix_cons id above)⟩

/-- No class is passed twice. -/
theorem nodup :
    chain.Nodup := by
  induction ascends with
  | top => exact List.nodup_singleton _
  | @under id parent above isParent ascends inductionHypothesis =>
      refine List.nodup_cons.mpr ⟨fun passed => ?_, inductionHypothesis⟩
      -- The rest of the way would be as long as the whole way.
      obtain ⟨rest, onward, isRest⟩ := ascends.suffix passed
      have whole := onward.unique (.under isParent ascends)
      exact Nat.not_succ_le_self _ (whole ▸ isRest.length_le)

/-- All classes that are passed but the last one have a parent, so they are in the tree. -/
theorem inside :
    ∀ passed ∈ chain.dropLast, passed.index < tree.classes.size := by
  induction ascends with
  | top => exact nofun
  | @under id parent above isParent ascends inductionHypothesis =>
      have more : above ≠ [] := by
        cases ascends <;> exact List.cons_ne_nil _ _
      rw [List.dropLast_cons_of_ne_nil more]
      exact List.forall_mem_cons.mpr ⟨inside_of_parent isParent, inductionHypothesis⟩

/-- There are not more classes on the way than there are in the tree, and the last one. -/
theorem length_le :
    chain.length ≤ tree.classes.size + 1 := by
  have different : (chain.dropLast.map Id.index).Nodup := by
    refine (ascends.nodup.sublist (List.dropLast_sublist chain)).map fun first second same => ?_
    rw [← Id.ofIndex_index first, same, Id.ofIndex_index]
  have counted : chain.dropLast.map Id.index ⊆ List.range tree.classes.size := by
    intro index isIndex
    obtain ⟨passed, isPassed, rfl⟩ := List.mem_map.mp isIndex
    exact List.mem_range.mpr (ascends.inside passed isPassed)
  have fewer := (different.subperm counted).length_le
  rw [List.length_map, List.length_dropLast, List.length_range] at fewer
  omega

/-- A chain with room for the whole way is the way up. -/
theorem chainWithin
    {bound : Nat}
    (room : chain.length ≤ bound + 1) :
    tree.chainWithin bound id = chain := by
  induction ascends generalizing bound with
  | top isTop =>
      cases bound with
      | zero => rfl
      | succ bound => rw [Tree.chainWithin, isTop]
  | under isParent ascends inductionHypothesis =>
      cases bound with
      | zero => cases ascends <;> simp at room
      | succ bound =>
          rw [Tree.chainWithin, isParent]
          exact congrArg _ (inductionHypothesis (Nat.le_of_succ_le_succ room))

/-- The chain of a class is the way up. -/
theorem classChain :
    tree.classChain id = chain :=
  ascends.chainWithin ascends.length_le

/-- The way up was the same before the tree has grown, if no parent was missing. -/
theorem shrink
    {before : Tree}
    (grows : before.Grows tree)
    (parents : before.ParentsInside)
    (inside : id.index < before.classes.size) :
    before.Ascends id chain := by
  induction ascends with
  | top isTop => exact .top ((grows.classDef inside).parent.symm.trans isTop)
  | @under id parent above isParent _ inductionHypothesis =>
      have isParent := (grows.classDef inside).parent.symm.trans isParent
      exact .under isParent (inductionHypothesis (parents.parent inside isParent))

end Ascends

namespace Rooted

/-- A class stays rooted while the tree grows. -/
theorem mono
    {before : Tree}
    (rooted : before.Rooted id)
    (parents : before.ParentsInside)
    (grows : before.Grows tree)
    (inside : id.index < before.classes.size) :
    tree.Rooted id := by
  induction rooted with
  | top isTop => exact .top ((grows.classDef inside).parent.trans isTop)
  | under isParent _ inductionHypothesis =>
      exact .under ((grows.classDef inside).parent.trans isParent)
        (inductionHypothesis (parents.parent inside isParent))

/-- The chain of an ancestor is the rest of the chain. -/
theorem classChain_suffix
    (rooted : tree.Rooted id)
    (inherits : ancestor ∈ tree.classChain id) :
    tree.classChain ancestor <:+ tree.classChain id := by
  obtain ⟨chain, ascends⟩ := rooted.ascends
  rw [ascends.classChain] at inherits ⊢
  obtain ⟨rest, onward, isRest⟩ := ascends.suffix inherits
  rwa [onward.classChain]

/-- The chain of a class was the same before the tree has grown. -/
theorem classChain_shrink
    {before : Tree}
    (rooted : tree.Rooted id)
    (grows : before.Grows tree)
    (parents : before.ParentsInside)
    (inside : id.index < before.classes.size) :
    before.classChain id = tree.classChain id := by
  obtain ⟨chain, ascends⟩ := rooted.ascends
  rw [ascends.classChain, (ascends.shrink grows parents inside).classChain]

end Rooted

end Tree

end BotScript
