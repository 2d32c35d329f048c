import BotScript.Proofs.BuildingPrograms
import BotScript.Proofs.CallStages
import Mathlib.Data.List.Basic

namespace BotScript

/-!
# Dispatch tables

The table of a class is filled along its chain, base class first, so that what a slot finds in
it is the method of the first class of the chain that declares one.  A call on an instance
therefore runs the most derived function with the signature of the one that was chosen for its
static class.  Only classes of the host that are named nowhere but in bodies and initializers
are imported behind the pass that fills the tables, and have none.
-/

/-! ## Tables -/

/-- The last method of a class under a slot that is a function of the program. -/
def ClassDef.slotFunction? (entry : ClassDef) (slot : MethodSlot) : Option FuncId :=
  entry.methods.reverse.findSome? fun method =>
    match method.implementation with
    | .user function => if method.slot = some slot then some function else none
    | .native _ => none

namespace Compile

/-- A slot that is inserted finds its function, and the others find what they did. -/
theorem lookup_insertSlot
    (slot other : MethodSlot)
    (function : FuncId)
    (table : List (MethodSlot × FuncId)) :
    (insertSlot slot function table).lookup other =
      if other = slot then some function else table.lookup other := by
  induction table with
  | nil => exact lookup_entry slot function []
  | cons entry others inductionHypothesis =>
      obtain ⟨key, found⟩ := entry
      unfold insertSlot
      split
      · next isKey =>
        obtain rfl := beq_iff_eq.mp isKey
        rw [lookup_entry, lookup_entry]
        split <;> rfl
      · next isOther =>
        have differs : key ≠ slot := fun same => isOther (beq_iff_eq.mpr same)
        split
        · exact lookup_entry slot function _
        · rw [lookup_entry, lookup_entry, inductionHypothesis]
          by_cases isKey : other = key
          · rw [if_pos isKey, if_pos isKey, if_neg (isKey ▸ differs)]
          · rw [if_neg isKey, if_neg isKey]

/-- A slot finds the method of a class that is added, or what it did. -/
theorem lookup_addMethods
    (table : List (MethodSlot × FuncId))
    (entry : ClassDef)
    (slot : MethodSlot) :
    (addMethods table entry).lookup slot = (entry.slotFunction? slot).or (table.lookup slot) := by
  unfold addMethods ClassDef.slotFunction?
  generalize entry.methods = methods
  induction methods generalizing table with
  | nil => rfl
  | cons method methods inductionHypothesis =>
      rw [List.foldl_cons, inductionHypothesis, List.reverse_cons, List.findSome?_append,
        Option.or_assoc]
      congr 1
      rw [List.findSome?_singleton]
      cases method.implementation with
      | native => rfl
      | user function =>
          cases isSlot : method.slot with
          | none => rfl
          | some other =>
              dsimp only
              rw [lookup_insertSlot]
              by_cases same : slot = other
              · simp [same]
              · simp [same, Ne.symm same]

/-- A slot finds the method of the first class of the chain that has one under it. -/
theorem lookup_dispatchTable
    (tree : Tree)
    (id : ClassId)
    (slot : MethodSlot) :
    (dispatchTable tree id).lookup slot =
      (tree.classChain id).findSome? fun owner => (tree.classDef owner).slotFunction? slot := by
  unfold dispatchTable
  rw [List.foldl_reverse]
  induction tree.classChain id with
  | nil => rfl
  | cons owner above inductionHypothesis =>
      rw [List.foldr_cons, lookup_addMethods, inductionHypothesis, List.findSome?_cons]
      cases (tree.classDef owner).slotFunction? slot <;> rfl

/-- A class overrides the first one of two methods that it inherits. -/
example :
    dispatchTable
      { classes :=
          #[{ name := "A", span := .none, methods :=
                [⟨"f", .user ⟨0⟩, .publicAccess, some ⟨0⟩⟩,
                  ⟨"g", .user ⟨1⟩, .publicAccess, some ⟨1⟩⟩] },
            { name := "B", span := .none, parent := some ⟨0⟩, methods :=
                [⟨"f", .user ⟨2⟩, .publicAccess, some ⟨0⟩⟩] }] }
      ⟨1⟩ = [(⟨0⟩, ⟨2⟩), (⟨1⟩, ⟨1⟩)] := by
  decide

/-- The table of a class depends on its chain and the methods there. -/
theorem dispatchTable_congr
    {first second : Tree}
    {id : ClassId}
    (chain : first.classChain id = second.classChain id)
    (methods :
      ∀ owner ∈ second.classChain id,
        (first.classDef owner).methods = (second.classDef owner).methods) :
    dispatchTable first id = dispatchTable second id := by
  unfold dispatchTable addMethods
  rw [chain]
  refine List.foldl_ext _ _ _ fun table owner isOwner => ?_
  rw [methods owner (List.mem_reverse.mp isOwner)]

end Compile

/-! ## Most derived functions -/

namespace Tree

variable {tree declared : Tree} {id : ClassId}

/-- A class with its dispatch table. -/
theorem classDef_withDispatchTables
    (inside : id.index < tree.classes.size) :
    (Compile.withDispatchTables tree).classDef id =
      { tree.classDef id with dispatch := Compile.dispatchTable tree id } := by
  rw [classDef, class?, classDef, class?, Compile.withDispatchTables, Array.getElem?_mapIdx,
    Array.getElem?_eq_getElem inside, Id.ofIndex_index]
  rfl

/-- A class declares a function with a signature, inside of it or behind its name. -/
def Declares (tree : Tree) (owner : ClassId) (key : String) (id : FuncId) : Prop :=
  ∃ function, tree.function? id = some function ∧ function.owner = some owner ∧
    function.name ≠ (tree.classDef owner).name ∧ function.signatureKey = key

/-- The first class of the chain that declares a function with a signature declares this one. -/
def MostDerived (tree : Tree) (id : ClassId) (key : String) (function : FuncId) : Prop :=
  ∃ below owner above, tree.classChain id = below ++ owner :: above ∧
    tree.Declares owner key function ∧ ∀ other ∈ below, ∀ id, ¬ tree.Declares other key id

namespace Members

variable (members : tree.Members)

include members

/-- A class declares no two functions with one signature. -/
theorem declares_unique
    {owner : ClassId}
    {key : String}
    {function other : FuncId}
    (declares : tree.Declares owner key function)
    (also : tree.Declares owner key other) :
    function = other := by
  obtain ⟨first, found, isOwner, -, isKey⟩ := declares
  obtain ⟨second, foundOther, isOtherOwner, -, isOtherKey⟩ := also
  exact members.signatures function first found other second foundOther
    (isOwner.trans isOtherOwner.symm) (isKey.trans isOtherKey.symm)

/-- A key stands at one slot only. -/
theorem slot_unique
    {slot other : MethodSlot}
    {key : String}
    (isKey : tree.methodKeys[slot.index]? = some key)
    (also : tree.methodKeys[other.index]? = some key) :
    slot = other := by
  rw [← Array.getElem?_toList] at isKey also
  obtain ⟨inside, -⟩ := List.getElem?_eq_some_iff.mp isKey
  have same := (List.getElem?_inj inside members.keys).mp (isKey.trans also.symm)
  rw [← slot.ofIndex_index, same, other.ofIndex_index]

/-- A function that a class has under a slot is declared by it, with the signature there. -/
theorem declares_of_slotFunction?
    {owner : ClassId}
    {slot : MethodSlot}
    {function : FuncId}
    (found : (tree.classDef owner).slotFunction? slot = some function) :
    ∃ key, tree.methodKeys[slot.index]? = some key ∧ tree.Declares owner key function := by
  obtain ⟨method, isMethod, isIts⟩ := List.exists_of_findSome?_eq_some found
  have isMethod := List.mem_reverse.mp isMethod
  cases isUser : method.implementation with
  | native id =>
    rw [isUser] at isIts
    cases isIts
  | user id =>
    rw [isUser] at isIts
    dsimp only at isIts
    split at isIts
    · next isSlot =>
      cases isIts
      obtain ⟨its, isFunction, implements⟩ := members.methods owner method isMethod function isUser
      have isNamed : method.name ≠ (tree.classDef owner).name := by
        intro isConstructor
        cases isSlot.symm.trans (implements.noSlot isConstructor)
      obtain ⟨other, isOther, isKey⟩ := implements.slot isNamed
      cases isSlot.symm.trans isOther
      exact ⟨_, isKey, its, isFunction, implements.isOwner, implements.name ▸ isNamed, rfl⟩
    · cases isIts

/-- A function that a class declares is one of its methods, under the slot of the signature. -/
theorem exists_slot
    {owner : ClassId}
    {key : String}
    {function : FuncId}
    (declares : tree.Declares owner key function) :
    ∃ slot : MethodSlot, tree.methodKeys[slot.index]? = some key ∧
      ∃ method ∈ (tree.classDef owner).methods,
        method.slot = some slot ∧ method.implementation = .user function := by
  obtain ⟨its, isFunction, isOwner, isNamed, rfl⟩ := declares
  obtain ⟨method, isMethod, isUser⟩ := members.functions function its isFunction owner isOwner
  obtain ⟨_, isAgain, implements⟩ := members.methods owner method isMethod function isUser
  cases isFunction.symm.trans isAgain
  obtain ⟨slot, isSlot, isKey⟩ := implements.slot (implements.name ▸ isNamed)
  exact ⟨slot, isKey, method, isMethod, isSlot, isUser⟩

/-- The function of a class under a slot is the one that it declares with the signature there. -/
theorem slotFunction?_iff
    {owner : ClassId}
    {slot : MethodSlot}
    {function : FuncId} :
    (tree.classDef owner).slotFunction? slot = some function ↔
      ∃ key, tree.methodKeys[slot.index]? = some key ∧ tree.Declares owner key function := by
  refine ⟨members.declares_of_slotFunction?, ?_⟩
  rintro ⟨key, isKey, declares⟩
  obtain ⟨other, isOtherKey, method, isMethod, isSlot, isUser⟩ := members.exists_slot declares
  obtain rfl := members.slot_unique isKey isOtherKey
  -- Some method is found under the slot, and no other function is declared with its signature.
  have isThere : ((tree.classDef owner).slotFunction? slot).isSome := by
    refine List.findSome?_isSome_iff.mpr ⟨method, List.mem_reverse.mpr isMethod, ?_⟩
    rw [isUser, isSlot]
    simp
  obtain ⟨found, isFound⟩ := Option.isSome_iff_exists.mp isThere
  obtain ⟨_, isFoundKey, also⟩ := members.declares_of_slotFunction? isFound
  cases isKey.symm.trans isFoundKey
  rw [isFound, members.declares_unique declares also]

/-- What a slot finds in the table of a class is the most derived function with the signature. -/
theorem lookup_dispatchTable_iff
    {slot : MethodSlot}
    {function : FuncId} :
    (Compile.dispatchTable tree id).lookup slot = some function ↔
      ∃ key, tree.methodKeys[slot.index]? = some key ∧ tree.MostDerived id key function := by
  rw [Compile.lookup_dispatchTable, List.findSome?_eq_some_iff]
  constructor
  · rintro ⟨below, owner, above, isChain, found, none⟩
    obtain ⟨key, isKey, declares⟩ := members.slotFunction?_iff.mp found
    refine ⟨key, isKey, below, owner, above, isChain, declares, fun other isBelow id also => ?_⟩
    cases (none other isBelow).symm.trans (members.slotFunction?_iff.mpr ⟨key, isKey, also⟩)
  · rintro ⟨key, isKey, below, owner, above, isChain, declares, none⟩
    refine ⟨below, owner, above, isChain, members.slotFunction?_iff.mpr ⟨key, isKey, declares⟩,
      fun other isBelow => ?_⟩
    refine Option.eq_none_iff_forall_ne_some.mpr fun id found => ?_
    obtain ⟨_, isOtherKey, also⟩ := members.slotFunction?_iff.mp found
    cases isKey.symm.trans isOtherKey
    exact none other isBelow id also

/-- If a class of the chain declares a function with a signature, there is a most derived one. -/
theorem exists_mostDerived
    {owner : ClassId}
    {key : String}
    {function : FuncId}
    (isOwner : owner ∈ tree.classChain id)
    (declares : tree.Declares owner key function) :
    ∃ last, tree.MostDerived id key last := by
  obtain ⟨slot, isKey, -⟩ := members.exists_slot declares
  have found := members.slotFunction?_iff.mpr ⟨key, isKey, declares⟩
  have isThere : ((Compile.dispatchTable tree id).lookup slot).isSome := by
    rw [Compile.lookup_dispatchTable]
    exact List.findSome?_isSome_iff.mpr ⟨owner, isOwner, found ▸ rfl⟩
  obtain ⟨last, isLast⟩ := Option.isSome_iff_exists.mp isThere
  obtain ⟨_, isOtherKey, mostDerived⟩ := members.lookup_dispatchTable_iff.mp isLast
  cases isKey.symm.trans isOtherKey
  exact ⟨last, mostDerived⟩

/-- There is only one most derived function with a signature. -/
theorem mostDerived_unique
    {key : String}
    {function other : FuncId}
    (mostDerived : tree.MostDerived id key function)
    (also : tree.MostDerived id key other) :
    function = other := by
  obtain ⟨slot, isKey⟩ : ∃ slot : MethodSlot, tree.methodKeys[slot.index]? = some key := by
    obtain ⟨_, _, _, _, declares, -⟩ := mostDerived
    exact (members.exists_slot declares).imp fun _ found => found.1
  have found := members.lookup_dispatchTable_iff.mpr ⟨key, isKey, mostDerived⟩
  have alsoFound := members.lookup_dispatchTable_iff.mpr ⟨key, isKey, also⟩
  exact Option.some.inj (found.symm.trans alsoFound)

/-- The members stay when the dispatch tables are filled in. -/
theorem withDispatchTables :
    (Compile.withDispatchTables tree).Members := by
  refine members.grown (.withDispatchTables tree) rfl (fun owner method isMethod _ _ => ?_) rfl
  have inside := inside_of_method isMethod
  rw [Compile.withDispatchTables, Array.size_mapIdx] at inside
  rwa [classDef_withDispatchTables inside] at isMethod

end Members

/-! ## Programs -/

namespace DeclaredBy

variable (declaredBy : tree.DeclaredBy declared)

include declaredBy

/-- The tree has grown out of the one in which its members are declared. -/
theorem grows : declared.Grows tree :=
  (Grows.withDispatchTables declared).trans declaredBy.settles.grows

/-- The methods of the classes are the functions that are declared for them. -/
theorem members_of_fits
    (fits : tree.Fits) :
    tree.Members :=
  (declaredBy.members (declaredBy.grows.fits fits)).withDispatchTables.settles declaredBy.settles

/-- A class that is there when the members are declared has its methods and its table then. -/
theorem classDef
    (inside : id.index < declared.classes.size) :
    (tree.classDef id).methods = (declared.classDef id).methods ∧
      (tree.classDef id).dispatch = Compile.dispatchTable declared id := by
  have there : id.index < (Compile.withDispatchTables declared).classes.size := by
    rwa [Compile.withDispatchTables, Array.size_mapIdx]
  have settled := declaredBy.settles.classDef there
  rw [classDef_withDispatchTables inside] at settled
  exact ⟨settled.methods, settled.dispatch⟩

/-- The table of such a class is that of the whole tree. -/
theorem dispatch
    (rooted : tree.Rooted id)
    (inside : id.index < declared.classes.size) :
    (tree.classDef id).dispatch = Compile.dispatchTable tree id := by
  have chain := rooted.classChain_shrink declaredBy.grows declaredBy.parents inside
  rw [(declaredBy.classDef inside).2]
  refine Compile.dispatchTable_congr chain fun owner isOwner => ?_
  have ownerInside := declaredBy.parents.classChain inside owner (chain ▸ isOwner)
  exact (declaredBy.classDef ownerInside).1.symm

/-- Any other class is one of the host and has no table. -/
theorem isImport
    {entry : ClassDef}
    (found : tree.class? id = some entry)
    (outside : ¬ id.index < declared.classes.size) :
    entry.IsImport := by
  refine (declaredBy.settles.added id.index entry found).resolve_left fun inside => outside ?_
  rwa [Compile.withDispatchTables, Array.size_mapIdx] at inside

end DeclaredBy

/--
Under each slot, a class finds the most derived function with the signature of the slot, or it
is a class of the host without a table.
-/
def Dispatches (tree : Tree) (id : ClassId) : Prop :=
  (∀ slot function, tree.dispatch? id (some slot) = some function ↔
      ∃ key, tree.methodKeys[slot.index]? = some key ∧ tree.MostDerived id key function) ∨
    (tree.classDef id).isHost = true ∧ ∀ slot, tree.dispatch? id slot = none

end Tree

/-- A class that declares a function is in the tree. -/
theorem Tree.Members.inside_of_declares
    {tree : Tree}
    {owner : ClassId}
    {key : String}
    {function : FuncId}
    (members : tree.Members)
    (declares : tree.Declares owner key function) :
    owner.index < tree.classes.size := by
  obtain ⟨_, -, _, isMethod, -⟩ := members.exists_slot declares
  exact Tree.inside_of_method isMethod

/-- What a class finds under a slot stands in its table. -/
theorem Tree.dispatch?_some
    (tree : Tree)
    (id : ClassId)
    (slot : MethodSlot) :
    tree.dispatch? id (some slot) = (tree.classDef id).dispatch.lookup slot := by
  rw [dispatch?, classDef]
  cases tree.class? id <;> rfl

/-- All classes of an accepted program dispatch calls to the most derived functions. -/
theorem compile_dispatches
    {registry : Registry}
    {tokens : TokenList}
    {tree : Tree}
    (accepted : compile registry tokens = .ok tree)
    (fits : tree.Fits)
    (id : ClassId) :
    tree.Dispatches id := by
  have built := compile_built registry.offers_all accepted
  obtain ⟨declared, declaredBy⟩ := built.declared
  have members := declaredBy.members_of_fits fits
  by_cases inside : id.index < declared.classes.size
  · refine .inl fun slot function => ?_
    rw [tree.dispatch?_some, declaredBy.dispatch (built.rooted fits id) inside]
    exact members.lookup_dispatchTable_iff
  cases found : tree.class? id with
  | some entry =>
    have isImport := declaredBy.isImport found inside
    have isEntry : tree.classDef id = entry := by
      rw [Tree.classDef, found]
      rfl
    refine .inr ⟨isEntry ▸ isImport.isHost, fun slot => ?_⟩
    cases slot with
    | none =>
      rw [Tree.dispatch?, found]
      rfl
    | some slot =>
      rw [tree.dispatch?_some, isEntry, isImport.dispatch]
      rfl
  | none =>
    -- There is no such class, so that nothing is declared for it.
    have isTop : (tree.classDef id).parent = none := by
      rw [Tree.classDef, found]
      rfl
    refine .inl fun slot function => ⟨fun isIts => ?_, ?_⟩
    · rw [Tree.dispatch?, found] at isIts
      cases isIts
    · rintro ⟨key, -, below, owner, above, isChain, declares, -⟩
      rw [(Tree.Ascends.top isTop).classChain] at isChain
      have isOwner : owner ∈ [id] := isChain ▸ List.mem_append_right _ List.mem_cons_self
      obtain rfl := List.mem_singleton.mp isOwner
      rw [Tree.class?, Array.getElem?_eq_getElem (members.inside_of_declares declares)] at found
      cases found

/--
A method call on an instance whose class inherits from the class of the object enters the most
derived function with the signature of the function that has been chosen, or the class of the
instance is one of the host without a table, and the function that has been chosen is entered.
-/
theorem Machine.dispatched_mostDerived
    {registry : Registry}
    {tokens : TokenList}
    {setting : Setting}
    {id object : ExprId}
    {slot : Option MethodSlot}
    {declared : FuncId}
    {arguments : List ExprId}
    {ty : Ty}
    {place : Span}
    {static : ClassId}
    (accepted : compile registry tokens = .ok setting.tree)
    (fits : setting.tree.Fits)
    (found :
      setting.tree.expr? id = some ⟨.methodCall object slot (.user declared) arguments, ty, place⟩)
    (isStatic : setting.tree.ClassOf (setting.tree.expr object).ty static)
    (machine : Machine)
    (this : ObjectId)
    (inherits :
      static ∈ setting.tree.classChain (machine.memory.world.heap.object this).layout.id) :
    ∃ function, setting.tree.function? declared = some function ∧
      (setting.tree.MostDerived (machine.memory.world.heap.object this).layout.id
          function.signatureKey (machine.dispatched setting this slot declared) ∨
        (setting.tree.classDef (machine.memory.world.heap.object this).layout.id).isHost = true ∧
          machine.dispatched setting this slot declared = declared) := by
  have built := compile_built registry.offers_all accepted
  obtain ⟨_, sound⟩ := built.sound
  obtain ⟨_, declaredBy⟩ := built.declared
  have members := declaredBy.members_of_fits fits
  obtain ⟨again, isAgain, owner, isOwner, method, isMethod, isNamed, isSlot, isUser⟩ :=
    (sound.exprs _ _ found).apt fits
  obtain rfl : again = static := by
    obtain ⟨name, isObject, isNamed⟩ := isAgain
    obtain ⟨other, isOther, isOtherNamed⟩ := isStatic
    cases isObject.symm.trans isOther
    exact Option.some.inj (isNamed.symm.trans isOtherNamed)
  obtain ⟨function, isFunction, implements⟩ :=
    members.methods owner method isMethod declared isUser
  obtain ⟨key, isKey, isSignature⟩ := implements.slot isNamed
  obtain rfl : slot = some key := isSlot.symm.trans isKey
  have declares : setting.tree.Declares owner function.signatureKey declared :=
    ⟨function, isFunction, implements.isOwner, implements.name ▸ isNamed, rfl⟩
  have inChain := ((built.rooted fits _).classChain_suffix inherits).subset isOwner
  obtain ⟨last, mostDerived⟩ := members.exists_mostDerived inChain declares
  refine ⟨function, isFunction, ?_⟩
  unfold Machine.dispatched
  obtain finds | ⟨isHost, none⟩ := compile_dispatches accepted fits
    (machine.memory.world.heap.object this).layout.id
  · rw [(finds key last).mpr ⟨_, isSignature, mostDerived⟩]
    exact .inl mostDerived
  · rw [none]
    exact .inr ⟨isHost, rfl⟩

end BotScript
