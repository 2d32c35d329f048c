import BotScript.Proofs.ProtectedMembers

namespace BotScript

/-!
# Field layouts

The compiler numbers the fields of an instance over the chain of its class, base class first,
and takes the last field with a name.  A running program lays instances out by levels, the
level of the class first, and takes the first field with a name.  The two agree, and whatever
the order is in which classes are declared, the layouts are those of the chains.
-/

/-! ## The table of layouts -/

/-- The level that a class adds to the layout of its instances. -/
def ClassDef.level (entry : ClassDef) : LayoutLevel :=
  ⟨entry.name, entry.fields.map fun field => ⟨field.name, field.ty⟩⟩

/--
Give a class its layout in a table, on top of the layout that its parent gets first.  A class
that has a layout already keeps it.
-/
def Tree.layOut (tree : Tree) :
    Nat → ClassId → Array (Option ClassLayout) → Array (Option ClassLayout)
  | 0, _, built => built
  | bound + 1, id, built =>
      if built[id.index]?.join.isSome then built
      else
        let level := (tree.classDef id).level
        match (tree.classDef id).parent with
        | none => built.setIfInBounds id.index (some ⟨id, [level]⟩)
        | some parent =>
            let built := tree.layOut bound parent built
            let above := built[parent.index]?.join.elim [] (·.levels)
            built.setIfInBounds id.index (some ⟨id, level :: above⟩)

/-- The layouts of the first classes of a tree, built one after the other. -/
def Tree.layoutTable (tree : Tree) : Nat → Array (Option ClassLayout)
  | 0 => .replicate tree.classes.size none
  | index + 1 =>
      tree.layOut (tree.classes.size + 1) (Id.ofIndex index) (tree.layoutTable index)

/-- One layout for each class of a tree. -/
def Tree.layouts (tree : Tree) : List ClassLayout :=
  (tree.layoutTable tree.classes.size).toList.filterMap fun layout => layout

namespace Tree

variable {tree : Tree} {id parent : ClassId} {built : Array (Option ClassLayout)}

/-- A class of the tree has the layout of its chain. -/
theorem layout?_chain
    (inside : id.index < tree.classes.size) :
    tree.layout? id =
      some ⟨id, (tree.classChain id).map fun owner => (tree.classDef owner).level⟩ := by
  rw [layout?, class?, Array.getElem?_eq_getElem inside]
  rfl

/-- The layout of a class without a parent has its own level only. -/
theorem layout?_top
    (inside : id.index < tree.classes.size)
    (isTop : (tree.classDef id).parent = none) :
    tree.layout? id = some ⟨id, [(tree.classDef id).level]⟩ := by
  rw [layout?_chain inside, (Ascends.top isTop).classChain]
  rfl

/-- The layout of a class has its own level above the levels of its parent. -/
theorem layout?_under
    {above : List ClassId}
    (parents : tree.ParentsInside)
    (ascends : tree.Ascends parent above)
    (isParent : (tree.classDef id).parent = some parent) :
    tree.layout? id =
      some ⟨id, (tree.classDef id).level :: (tree.layout? parent).elim [] (·.levels)⟩ := by
  have inside := inside_of_parent isParent
  rw [layout?_chain inside, layout?_chain (parents.parent inside isParent),
    ascends.classChain, (Ascends.under isParent ascends).classChain]
  rfl

/-- A table has a place for each class, and the layouts in it are those of the classes. -/
structure LaysOut (tree : Tree) (built : Array (Option ClassLayout)) : Prop where
  size : built.size = tree.classes.size
  right : ∀ id layout, built[id.index]?.join = some layout → tree.layout? id = some layout

/-- A table gets the layout of a class, and keeps the layouts that it has. -/
structure LayoutAdded (tree : Tree) (id : ClassId) (before after : Array (Option ClassLayout)) :
    Prop where
  sound : tree.LaysOut after
  added : after[id.index]?.join = tree.layout? id
  kept :
    ∀ (other : Nat) layout, before[other]?.join = some layout →
      after[other]?.join = some layout

/-- The layout of a class is put in its place. -/
theorem LaysOut.set
    {layout : ClassLayout}
    (sound : tree.LaysOut built)
    (inside : id.index < tree.classes.size)
    (isLayout : tree.layout? id = some layout) :
    tree.LayoutAdded id built (built.setIfInBounds id.index (some layout)) := by
  have there : id.index < built.size := sound.size ▸ inside
  refine ⟨⟨?_, fun other found isFound => ?_⟩, ?_, fun other found isFound => ?_⟩
  · rw [Array.size_setIfInBounds, sound.size]
  · rw [Array.getElem?_setIfInBounds] at isFound
    split at isFound
    · next same =>
      cases isFound
      rw [← Id.ofIndex_index other, ← same, Id.ofIndex_index, isLayout]
    · exact sound.right other found isFound
  · rw [Array.getElem?_setIfInBounds_self_of_lt there, isLayout]
    rfl
  · rw [Array.getElem?_setIfInBounds]
    split
    · next same =>
      -- The place had a layout already, which was the same one.
      exact isLayout.symm.trans (sound.right id found (same ▸ isFound))
    · exact isFound

/-- A table that has the layout of a class needs no other one. -/
theorem LaysOut.keep
    {layout : ClassLayout}
    (sound : tree.LaysOut built)
    (found : built[id.index]?.join = some layout) :
    tree.LayoutAdded id built built :=
  ⟨sound, found.trans (sound.right id layout found).symm, fun _ _ isFound => isFound⟩

/-- A class gets its layout when the way up from it ends within the bound. -/
theorem Ascends.layOut
    {chain : List ClassId}
    {bound : Nat}
    (ascends : tree.Ascends id chain)
    (parents : tree.ParentsInside)
    (inside : id.index < tree.classes.size)
    (room : chain.length ≤ bound)
    (sound : tree.LaysOut built) :
    tree.LayoutAdded id built (tree.layOut bound id built) := by
  induction ascends generalizing bound built with
  | @top id isTop =>
      obtain _ | bound := bound
      · cases room
      rw [Tree.layOut]
      split
      · next has =>
        obtain ⟨layout, found⟩ := Option.isSome_iff_exists.mp has
        exact sound.keep found
      · rw [isTop]
        exact sound.set inside (layout?_top inside isTop)
  | @under id parent above isParent ascends inductionHypothesis =>
      obtain _ | bound := bound
      · cases room
      rw [Tree.layOut]
      split
      · next has =>
        obtain ⟨layout, found⟩ := Option.isSome_iff_exists.mp has
        exact sound.keep found
      · rw [isParent]
        -- The parent comes first, and the level of the class goes on top of what it got.
        have first := inductionHypothesis (parents.parent inside isParent)
          (Nat.le_of_succ_le_succ room) sound
        have onward := first.sound.set inside (layout?_under parents ascends isParent)
        rw [← first.added] at onward
        exact ⟨onward.sound, onward.added,
          fun other layout found => onward.kept other layout (first.kept other layout found)⟩

/-- A table is built with the layouts of the classes that it has come to. -/
theorem layoutTable_laysOut
    (fits : tree.Fits)
    (parents : tree.ParentsInside)
    (rooted : ∀ id, tree.Rooted id)
    {count : Nat}
    (counted : count ≤ tree.classes.size) :
    tree.LaysOut (tree.layoutTable count) ∧
      ∀ index < count, ∃ layout, (tree.layoutTable count)[index]?.join = some layout ∧
        tree.layout? (Id.ofIndex index) = some layout := by
  induction count with
  | zero =>
      refine ⟨⟨Array.size_replicate, fun id layout found => ?_⟩, nofun⟩
      rw [layoutTable, Array.getElem?_replicate] at found
      split at found <;> cases found
  | succ count inductionHypothesis =>
      obtain ⟨sound, there⟩ := inductionHypothesis (Nat.le_of_succ_le counted)
      obtain ⟨chain, ascends⟩ := (rooted (Id.ofIndex count)).ascends
      have isIndex : (Id.ofIndex count : ClassId).index = count :=
        Id.index_ofIndex (Nat.lt_trans counted fits.classes)
      have inside : (Id.ofIndex count : ClassId).index < tree.classes.size := isIndex.symm ▸ counted
      have added := ascends.layOut parents inside ascends.length_le sound
      refine ⟨added.sound, fun index before => ?_⟩
      obtain earlier | rfl := Nat.lt_succ_iff_lt_or_eq.mp before
      · obtain ⟨layout, found, isLayout⟩ := there index earlier
        exact ⟨layout, added.kept index layout found, isLayout⟩
      · have isLayout := layout?_chain inside
        have found := added.added.trans isLayout
        rw [isIndex] at found
        exact ⟨_, found, isLayout⟩

/-- Without gaps, what is left of a list has its places. -/
private theorem getElem?_filled
    {α : Type}
    {items : List (Option α)}
    (filled : ∀ item ∈ items, item.isSome)
    (index : Nat) :
    (items.filterMap fun item => item)[index]? = items[index]?.join := by
  induction items generalizing index with
  | nil => rfl
  | cons item items inductionHypothesis =>
      obtain ⟨isFilled, others⟩ := List.forall_mem_cons.mp filled
      obtain ⟨value, rfl⟩ := Option.isSome_iff_exists.mp isFilled
      cases index with
      | zero => rfl
      | succ index => exact inductionHypothesis others index

/-- The layouts are those of the classes, in the order of the classes. -/
theorem layouts_getElem?
    (fits : tree.Fits)
    (parents : tree.ParentsInside)
    (rooted : ∀ id, tree.Rooted id)
    (inside : id.index < tree.classes.size) :
    tree.layouts[id.index]? = tree.layout? id := by
  obtain ⟨sound, there⟩ := layoutTable_laysOut fits parents rooted (Nat.le_refl _)
  have filled : ∀ item ∈ (tree.layoutTable tree.classes.size).toList, item.isSome := by
    intro item isItem
    obtain ⟨index, found⟩ := List.mem_iff_getElem?.mp isItem
    rw [Array.getElem?_toList] at found
    have isClass : index < tree.classes.size := sound.size ▸ (Array.getElem?_eq_some_iff.mp found).1
    obtain ⟨layout, isThere, -⟩ := there index isClass
    rw [found] at isThere
    exact Option.isSome_iff_exists.mpr ⟨layout, isThere⟩
  obtain ⟨layout, isThere, isLayout⟩ := there id.index inside
  rw [layouts, getElem?_filled filled, Array.getElem?_toList, isThere, ← isLayout,
    Id.ofIndex_index]

/-- A type is that of one class only. -/
theorem ClassOf.unique
    {ty : Ty}
    {other : ClassId}
    (first : tree.ClassOf ty id)
    (second : tree.ClassOf ty other) :
    id = other := by
  obtain ⟨_, rfl, isFirst⟩ := first
  obtain ⟨_, ⟨⟩, isSecond⟩ := second
  exact Option.some.inj (isFirst.symm.trans isSecond)

/-! ## The numbers of fields -/

/-- The fields that the classes of a chain add to an instance, those of the last class first. -/
def chainFields (tree : Tree) (chain : List ClassId) : List (ClassId × FieldDef) :=
  chain.reverse.flatMap fun owner =>
    (tree.classDef owner).fields.map fun field => (owner, field)

/-- The fields of the first class of a chain come after those of the others. -/
@[simp]
theorem chainFields_cons
    (owner : ClassId)
    (above : List ClassId) :
    tree.chainFields (owner :: above) =
      tree.chainFields above ++ (tree.classDef owner).fields.map fun field => (owner, field) := by
  simp [chainFields]

/-- The levels of a chain have as many fields as its classes. -/
theorem countFields_chain
    (chain : List ClassId) :
    ClassLayout.countFields (chain.map fun owner => (tree.classDef owner).level) =
      (tree.chainFields chain).length := by
  induction chain with
  | nil => rfl
  | cons owner above inductionHypothesis =>
      have isLength : (tree.classDef owner).level.fields.length =
          (tree.classDef owner).fields.length := List.length_map _
      rw [chainFields_cons, List.length_append, List.length_map, ← inductionHypothesis,
        ← isLength, Nat.add_comm]
      rfl

/-- Where names are different, the last item with a name is the first one. -/
private theorem find?_reverse_zipIdx
    {α : Type}
    {key : α → String}
    {items : List α}
    (once : (items.map key).Nodup)
    (name : String)
    (start : Nat) :
    ((items.zipIdx start).reverse.find? fun entry => key entry.1 == name).map (·.2) =
      (items.findIdx? fun item => key item == name).map (start + ·) := by
  induction items generalizing start with
  | nil => rfl
  | cons item items inductionHypothesis =>
      obtain ⟨isOther, once⟩ := List.nodup_cons.mp once
      rw [List.zipIdx_cons, List.reverse_cons, List.find?_append, Option.map_or,
        inductionHypothesis once, List.findIdx?_cons]
      by_cases same : key item = name
      · have notLater : items.findIdx? (fun item => key item == name) = none := by
          refine List.findIdx?_eq_none_iff.mpr fun later isLater => beq_false_of_ne fun isName => ?_
          exact isOther (same.trans isName.symm ▸ List.mem_map_of_mem isLater)
        simp [notLater, same]
      · simp [same, Option.map_map, Function.comp_def, Nat.add_assoc, Nat.add_comm 1]

/-- A name has the same number in the levels of a chain and among the fields of its classes. -/
theorem fieldIndexIn?_chain
    {chain : List ClassId}
    (once : ∀ owner ∈ chain, ((tree.classDef owner).fields.map (·.name)).Nodup)
    (name : String) :
    ClassLayout.fieldIndexIn? name (chain.map fun owner => (tree.classDef owner).level) =
      ((tree.chainFields chain).zipIdx.reverse.find? fun entry => entry.1.2.name == name).map
        (·.2) := by
  induction chain with
  | nil => rfl
  | cons owner above inductionHypothesis =>
      obtain ⟨own, once⟩ := List.forall_mem_cons.mp once
      -- The first class comes last in an instance, so a search from the end meets it first.
      let added := (tree.classDef owner).fields.map fun field => (owner, field)
      have different : (added.map fun entry => entry.2.name).Nodup := by
        rwa [List.map_map]
      have isFirst := find?_reverse_zipIdx different name (tree.chainFields above).length
      rw [chainFields_cons, List.zipIdx_append, List.reverse_append, List.find?_append,
        Option.map_or, Nat.zero_add, isFirst, ← inductionHypothesis once, List.map_cons,
        ClassLayout.fieldIndexIn?, countFields_chain, ClassDef.level, List.findIdx?_map,
        List.findIdx?_map]
      simp only [Function.comp_def]
      cases (tree.classDef owner).fields.findIdx? fun field => field.name == name <;> rfl

/-- All fields of the levels of a chain are those of its classes. -/
theorem allFields_chain
    (id : ClassId)
    (chain : List ClassId) :
    ClassLayout.allFields ⟨id, chain.map fun owner => (tree.classDef owner).level⟩ =
      (tree.chainFields chain).map fun entry => ⟨entry.2.name, entry.2.ty⟩ := by
  simp [ClassLayout.allFields, chainFields, ClassDef.level, ← List.map_reverse, List.flatMap_map,
    List.map_flatMap, Function.comp_def]

/-- The fields of a class come first in the instances of the classes that inherit from it. -/
theorem Rooted.instanceFields_inherited
    {sub : ClassId}
    (rooted : tree.Rooted sub)
    (inherits : tree.isSubclassOf sub id = true) :
    tree.instanceFields id <+: tree.instanceFields sub := by
  obtain ⟨below, isChain⟩ := rooted.classChain_suffix (List.contains_iff_mem.mp inherits)
  rw [instanceFields, instanceFields, ← isChain, List.reverse_append, List.flatMap_append]
  exact List.prefix_append _ _

/--
The layout of a class agrees with what the compiler reads off the classes: with the fields of
its instances, with those of all classes that inherit from it, and with the number of each name.
The numbers of fields that code has are those of names in the layout of the class of the object.
-/
structure Lays (tree : Tree) (id : ClassId) (layout : ClassLayout) : Prop where
  built : tree.layouts[id.index]? = some layout
  used : tree.layout? id = some layout
  fields :
    layout.allFields = (tree.instanceFields id).map fun entry => ⟨entry.2.name, entry.2.ty⟩
  count : layout.fieldCount = (tree.instanceFields id).length
  inherited :
    ∀ sub, tree.isSubclassOf sub id = true → tree.instanceFields id <+: tree.instanceFields sub
  index :
    ∀ name, (Compile.instanceField? tree id name).map (·.1) = layout.fieldIndex? name
  code :
    tree.FieldsFit → ∀ site part object index, tree.Runs site part →
      (tree.expr part).kind = .field object index → tree.ClassOf (tree.expr object).ty id →
      ∃ name, layout.fieldIndex? name = some index.toNat

end Tree

/-- The layouts that a running program uses agree with the fields that it was compiled with. -/
theorem compile_lays
    {registry : Registry}
    {tokens : TokenList}
    {tree : Tree}
    {id : ClassId}
    (once : registry.FieldsOnce)
    (accepted : compile registry tokens = .ok tree)
    (fits : tree.Fits)
    (inside : id.index < tree.classes.size) :
    ∃ layout, tree.Lays id layout := by
  have built := compile_built registry.offers_all accepted
  have rooted := built.rooted fits
  obtain ⟨own, sound⟩ := built.sound
  have parents := sound.parents
  have isLayout := Tree.layout?_chain inside
  have different : ∀ owner ∈ tree.classChain id,
      ((tree.classDef owner).fields.map (·.name)).Nodup := fun owner isOwner =>
    (sound.classes _ (Tree.classDef_mem (parents.classChain inside owner isOwner))).names once
  let layout : ClassLayout :=
    ⟨id, (tree.classChain id).map fun owner => (tree.classDef owner).level⟩
  have index (name : String) :
      (Compile.instanceField? tree id name).map (·.1) = layout.fieldIndex? name := by
    refine Eq.trans ?_ (Tree.fieldIndexIn?_chain different name).symm
    rw [Compile.instanceField?, Option.map_map]
    rfl
  refine ⟨layout, (Tree.layouts_getElem? fits parents rooted inside).trans isLayout, isLayout,
    Tree.allFields_chain id _, Tree.countFields_chain _,
    fun sub => (rooted sub).instanceFields_inherited, index,
    fun few site part object position runs isField isClass => ?_⟩
  obtain ⟨owner, visibility, names, -⟩ :=
    (compile_guards accepted fits few).mayName runs (by rw [isField]; rfl)
  rw [isField] at names
  obtain ⟨other, field, isOther, -, isNamed, -⟩ := names
  obtain rfl := isOther.unique isClass
  refine ⟨field.name, ?_⟩
  rw [← index, isNamed]
  rfl

/-- A class before the one that it inherits from, of which it shadows a field. -/
def Compile.shadowText : String :=
  "class B extends A\x7bint x;int g()\x7breturn x+y;\x7d\x7d" ++
    "class A\x7bint x=1;int y=2;\x7dvoid main()\x7bfile f;\x7d"

open Compile (shadowText) in
/-- The layout of the class agrees with its three fields, two of which have one name. -/
theorem compile_lays_shadowed :
    ∃ tree : Tree,
      Registry.standard.FieldsOnce ∧
        compile .standard (TokenList.ofSource Registry.standard.constants shadowText) = .ok tree ∧
          tree.Fits ∧ (⟨0⟩ : ClassId).index < tree.classes.size ∧
            ((tree.instanceFields ⟨0⟩).map (·.2.name) = ["x", "y", "x"] ∧
              ∃ layout, tree.Lays ⟨0⟩ layout) := by
  have found :
      (∀ host ∈ Registry.standard.classes, (host.fields.map (·.name)).Nodup) ∧
      (compile .standard
        (TokenList.ofSource Registry.standard.constants shadowText)).toOption.any (fun tree =>
          decide (tree.Fits ∧ (⟨0⟩ : ClassId).index < tree.classes.size ∧
            (tree.instanceFields ⟨0⟩).map (·.2.name) = ["x", "y", "x"])) = true := by
    decide +kernel
  obtain ⟨once, found⟩ := found
  obtain ⟨tree, accepted, fits, inside, names⟩ := compile_ok_of_any found
  exact ⟨tree, once, accepted, fits, inside, names, compile_lays once accepted fits inside⟩

end BotScript
