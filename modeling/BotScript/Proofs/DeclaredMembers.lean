import BotScript.Proofs.MemberAccess

namespace BotScript

/-!
# Declared members

A function that is declared for a class becomes one of its methods, and its signature tells
it apart from the other functions of the class.  The slot of a method stands for the
signature; constructors have no slot.  This holds behind every declaration, and it stays so
while only classes of the host are added.
-/

/-- A function that looks the same to its callers has the same signature. -/
theorem FunctionDef.Becomes.signatureKey
    {before after : FunctionDef}
    (becomes : before.Becomes after) :
    after.signatureKey = before.signatureKey := by
  rw [FunctionDef.signatureKey, FunctionDef.signatureKey, becomes.name, becomes.params]

namespace Tree

/-- A method of a class is a function that is declared for the class. -/
structure Implements
    (tree : Tree) (owner : ClassId) (method : MethodDef) (function : FunctionDef) :
    Prop where
  isOwner : function.owner = some owner
  name : function.name = method.name
  noSlot : method.name = (tree.classDef owner).name → method.slot = none
  slot :
    method.name ≠ (tree.classDef owner).name →
      ∃ slot, method.slot = some slot ∧
        tree.methodKeys[slot.index]? = some function.signatureKey

/-- The methods of the classes are the functions that are declared for them. -/
structure Members (tree : Tree) : Prop where
  methods :
    ∀ owner, ∀ method ∈ (tree.classDef owner).methods,
      ∀ id, method.implementation = .user id →
        ∃ function, tree.function? id = some function ∧ tree.Implements owner method function
  functions :
    ∀ id function, tree.function? id = some function →
      ∀ owner, function.owner = some owner →
        ∃ method ∈ (tree.classDef owner).methods, method.implementation = .user id
  signatures :
    ∀ id function, tree.function? id = some function →
      ∀ other another, tree.function? other = some another →
        function.owner = another.owner → function.signatureKey = another.signatureKey →
          id = other
  keys : tree.methodKeys.toList.Nodup

variable {before after tree : Tree}

/-! ## Classes that are changed -/

/-- The definition of a class of the tree that is changed, and that of the other classes. -/
theorem classDef_modify
    {owner : ClassId}
    {change : ClassDef → ClassDef}
    {changed : Tree}
    (classes : changed.classes = tree.classes.modify owner.index change)
    (inside : owner.index < tree.classes.size)
    (id : ClassId) :
    changed.classDef id =
      if id = owner then change (tree.classDef owner) else tree.classDef id := by
  have sameIndex : owner.index = id.index ↔ id = owner :=
    ⟨fun same => by rw [← id.ofIndex_index, ← same, owner.ofIndex_index], fun same => same ▸ rfl⟩
  rw [classDef, class?, classes, Array.getElem?_modify, if_congr sameIndex rfl rfl]
  split
  · next same =>
    rw [classDef, class?, same, Array.getElem?_eq_getElem inside]
    rfl
  · rfl

/-! ## Method keys -/

/-- An interned key stands at its slot, the others stay, and no key is there twice. -/
theorem internMethodKey_keys
    (key : String)
    (nodup : tree.methodKeys.toList.Nodup)
    (exact : tree.methodKeys.size < UInt32.size) :
    (tree.internMethodKey key).2.methodKeys[(tree.internMethodKey key).1.index]? = some key ∧
      (∀ (index : Nat) other, tree.methodKeys[index]? = some other →
        (tree.internMethodKey key).2.methodKeys[index]? = some other) ∧
      (tree.internMethodKey key).2.methodKeys.toList.Nodup := by
  unfold internMethodKey
  split
  · next position found =>
    obtain ⟨inside, same, -⟩ := Array.findIdx?_eq_some_iff_getElem.mp found
    refine ⟨?_, fun _ _ found => found, nodup⟩
    rw [Id.index_ofIndex (Nat.lt_trans inside exact), Array.getElem?_eq_getElem inside]
    exact congrArg some (beq_iff_eq.mp same)
  · next isNew =>
    refine ⟨?_, fun _ _ found => Array.found_push found, ?_⟩
    · rw [Id.index_ofIndex exact]
      simp
    · rw [Array.toList_push, List.nodup_append']
      refine ⟨nodup, List.nodup_singleton _, ?_⟩
      intro other isOther isKey
      obtain rfl := List.mem_singleton.mp isKey
      have differs := Array.findIdx?_eq_none_iff.mp isNew other (Array.mem_toList_iff.mp isOther)
      simp at differs

namespace Members

/-! ## Trees that grow -/

/-- The members stay when a tree grows by no function of the program and no method of its classes. -/
theorem grown
    (members : before.Members)
    (grows : before.Grows after)
    (functions : after.functions.size = before.functions.size)
    (methods :
      ∀ owner, ∀ method ∈ (after.classDef owner).methods, ∀ id, method.implementation = .user id →
        method ∈ (before.classDef owner).methods)
    (methodKeys : after.methodKeys = before.methodKeys) :
    after.Members := by
  have earlier {id : FuncId} {function : FunctionDef} (found : after.function? id = some function) :
      ∃ old, before.function? id = some old ∧ old.Becomes function := by
    obtain ⟨inside, -⟩ := Array.getElem?_eq_some_iff.mp found
    have isOld := Array.getElem?_eq_getElem (functions ▸ inside)
    obtain ⟨later, isLater, becomes⟩ := grows.functions _ _ isOld
    cases found.symm.trans isLater
    exact ⟨_, isOld, becomes⟩
  refine ⟨fun owner method isMethod id isUser => ?_, fun id function found owner isOwner => ?_,
    fun id function found other another foundOther sameOwner sameKey => ?_, ?_⟩
  · have isOld := methods owner method isMethod id isUser
    obtain ⟨old, found, implements⟩ := members.methods owner method isOld id isUser
    obtain ⟨later, isLater, becomes⟩ := grows.functions _ _ found
    have sameName := (grows.classDef (inside_of_method isOld)).name
    refine ⟨later, isLater, becomes.owner.trans implements.isOwner,
      becomes.name.trans implements.name,
      fun isConstructor => implements.noSlot (isConstructor.trans sameName), fun isNamed => ?_⟩
    rw [becomes.signatureKey, methodKeys]
    exact implements.slot (sameName ▸ isNamed)
  · obtain ⟨old, isOld, becomes⟩ := earlier found
    obtain ⟨method, isMethod, isUser⟩ :=
      members.functions id old isOld owner (becomes.owner.symm.trans isOwner)
    exact ⟨method, (grows.methods owner).subset isMethod, isUser⟩
  · obtain ⟨old, isOld, becomes⟩ := earlier found
    obtain ⟨oldOther, isOldOther, becomesOther⟩ := earlier foundOther
    rw [becomes.owner, becomesOther.owner] at sameOwner
    rw [becomes.signatureKey, becomesOther.signatureKey] at sameKey
    exact members.signatures id old isOld other oldOther isOldOther sameOwner sameKey
  · rw [methodKeys]
    exact members.keys

/-- The members stay once all of them are declared. -/
theorem settles
    (members : before.Members)
    (settles : before.Settles after) :
    after.Members := by
  refine members.grown settles.grows settles.functions (fun owner method isMethod id isUser => ?_)
    settles.methodKeys
  have inside := inside_of_method isMethod
  have found := Array.getElem?_eq_getElem inside
  obtain old | isImport := settles.added _ _ found
  · rwa [(settles.classDef old).methods] at isMethod
  · rw [classDef, class?, found] at isMethod
    exact absurd isUser (isImport.native method isMethod id)

/-- The members stay when a class keeps its methods. -/
theorem modifyClass
    (members : tree.Members)
    (index : Nat)
    {change : ClassDef → ClassDef}
    (becomes : ∀ entry : ClassDef, entry.Becomes (change entry))
    (methods : ∀ entry : ClassDef, (change entry).methods = entry.methods) :
    Members { tree with classes := tree.classes.modify index change } := by
  refine members.grown (.modifyClass tree index becomes) rfl (fun id method isMethod _ _ => ?_) rfl
  rw [classDef, class?, Array.getElem?_modify] at isMethod
  split at isMethod
  · rw [classDef, class?]
    cases found : tree.classes[id.index]? with
    | none =>
      rw [found] at isMethod
      exact isMethod
    | some entry =>
      rw [found] at isMethod
      exact methods entry ▸ isMethod
  · exact isMethod

end Members

/-! ## Functions that are declared -/

section Declared

variable {function : FunctionDef}
  (members : tree.Members)
  (exact : tree.functions.size < UInt32.size)
  (fresh :
    ∀ other ∈ tree.functions, other.owner = function.owner →
      other.signatureKey ≠ function.signatureKey)

/-- A function of a tree behind which another one is declared is that one or was there. -/
theorem function?_push
    {pushed : Tree}
    (functions : pushed.functions = tree.functions.push function)
    {id : FuncId}
    {found : FunctionDef}
    (isFound : pushed.function? id = some found) :
    tree.function? id = some found ∨
      id = Id.ofIndex tree.functions.size ∧ found = function := by
  rw [function?, functions] at isFound
  refine (Array.push_found isFound).imp (fun old => old) fun last => ⟨?_, last.2⟩
  rw [← last.1, Id.ofIndex_index]

include members fresh in
/-- The signature of a function that is declared is new to its class. -/
theorem Members.signatures_push
    {pushed : Tree}
    (functions : pushed.functions = tree.functions.push function)
    {id other : FuncId}
    {first second : FunctionDef}
    (isFirst : pushed.function? id = some first)
    (isSecond : pushed.function? other = some second)
    (sameOwner : first.owner = second.owner)
    (sameKey : first.signatureKey = second.signatureKey) :
    id = other := by
  have isMember {id : FuncId} {found : FunctionDef} (isFound : tree.function? id = some found) :
      found ∈ tree.functions := Array.mem_of_getElem? isFound
  obtain oldFirst | ⟨rfl, rfl⟩ := function?_push functions isFirst
  · obtain oldSecond | ⟨rfl, rfl⟩ := function?_push functions isSecond
    · exact members.signatures id first oldFirst other second oldSecond sameOwner sameKey
    · exact absurd sameKey (fresh first (isMember oldFirst) sameOwner)
  · obtain oldSecond | ⟨rfl, -⟩ := function?_push functions isSecond
    · exact absurd sameKey.symm (fresh second (isMember oldSecond) sameOwner.symm)
    · rfl

include members fresh in
/-- A function outside the classes is declared. -/
theorem Members.declareFunction
    (isFree : function.owner = none) :
    Members { tree with functions := tree.functions.push function } where
  methods owner method isMethod id isUser := by
    obtain ⟨old, found, implements⟩ := members.methods owner method isMethod id isUser
    exact ⟨old, Array.found_push found,
      ⟨implements.isOwner, implements.name, implements.noSlot, implements.slot⟩⟩
  functions id found isFound owner isOwner := by
    obtain old | ⟨-, rfl⟩ := function?_push rfl isFound
    · exact members.functions id found old owner isOwner
    · cases isFree.symm.trans isOwner
  signatures _ _ isFirst _ _ isSecond := members.signatures_push fresh rfl isFirst isSecond
  keys := members.keys

variable {owner : ClassId} {keys : Array String} {method : MethodDef}

/-- A tree in which a function is declared for a class and becomes one of its methods. -/
def withMethod
    (tree : Tree) (owner : ClassId) (function : FunctionDef) (keys : Array String)
    (method : MethodDef) :
    Tree :=
  { tree with
    functions := tree.functions.push function
    methodKeys := keys
    classes := tree.classes.modify owner.index fun entry =>
      { entry with methods := entry.methods ++ [method] } }

/-- The definition of the class that gets a method, and that of the other classes. -/
theorem classDef_withMethod
    (inside : owner.index < tree.classes.size)
    (id : ClassId) :
    (tree.withMethod owner function keys method).classDef id =
      if id = owner then
        { tree.classDef owner with methods := (tree.classDef owner).methods ++ [method] }
      else tree.classDef id :=
  @classDef_modify tree owner (fun entry => { entry with methods := entry.methods ++ [method] })
    (tree.withMethod owner function keys method) rfl inside id

/-- A class keeps its name when it gets a method. -/
theorem classDef_name_withMethod
    (inside : owner.index < tree.classes.size)
    (id : ClassId) :
    ((tree.withMethod owner function keys method).classDef id).name = (tree.classDef id).name := by
  rw [classDef_withMethod inside]
  split
  · next same => rw [same]
  · rfl

/-- The methods of a class are those that it had, and the one that it gets. -/
theorem mem_methods_withMethod
    (inside : owner.index < tree.classes.size)
    (id : ClassId)
    (other : MethodDef) :
    other ∈ ((tree.withMethod owner function keys method).classDef id).methods ↔
      other ∈ (tree.classDef id).methods ∨ id = owner ∧ other = method := by
  rw [classDef_withMethod inside]
  split
  · next same => simp [same]
  · next differs => simp [differs]

include members exact fresh in
/-- A function that is declared for a class becomes a method of it. -/
theorem Members.declareMethod
    (inside : owner.index < tree.classes.size)
    (kept : ∀ (index : Nat) key, tree.methodKeys[index]? = some key → keys[index]? = some key)
    (nodup : keys.toList.Nodup)
    (isUser : method.implementation = .user (Id.ofIndex tree.functions.size))
    (implements :
      (tree.withMethod owner function keys method).Implements owner method function) :
    (tree.withMethod owner function keys method).Members where
  methods id other isThere user isOther := by
    obtain old | ⟨rfl, rfl⟩ := (mem_methods_withMethod inside id other).mp isThere
    · obtain ⟨earlier, found, its⟩ := members.methods id other old user isOther
      have sameName := @classDef_name_withMethod tree function owner keys method inside id
      refine ⟨earlier, Array.found_push found, its.isOwner, its.name, sameName ▸ its.noSlot,
        fun isNamed => ?_⟩
      obtain ⟨slot, isSlot, isKey⟩ := its.slot (sameName ▸ isNamed)
      exact ⟨slot, isSlot, kept _ _ isKey⟩
    · cases isUser.symm.trans isOther
      refine ⟨function, ?_, implements⟩
      change (tree.functions.push function)[(Id.ofIndex tree.functions.size : FuncId).index]? = _
      rw [Id.index_ofIndex exact, Array.getElem?_push_size]
  functions id found isFound other isOther := by
    obtain old | ⟨rfl, rfl⟩ := function?_push rfl isFound
    · obtain ⟨listed, isListed, isIts⟩ := members.functions id found old other isOther
      exact ⟨listed, (mem_methods_withMethod inside other listed).mpr (.inl isListed), isIts⟩
    · cases implements.isOwner.symm.trans isOther
      exact ⟨method, (mem_methods_withMethod inside owner method).mpr (.inr ⟨rfl, rfl⟩), isUser⟩
  signatures _ _ isFirst _ _ isSecond := members.signatures_push fresh rfl isFirst isSecond
  keys := nodup

end Declared

/-! ## Trees before anything is compiled -/

/-- Nothing has been compiled, and the methods of the classes are the functions declared for them. -/
structure Declaring (tree : Tree) : Prop extends tree.Blank where
  members : tree.Fits → tree.Members

namespace Declaring

/-- Nothing is compiled or declared when classes of the host are added. -/
theorem gains
    (declaring : before.Declaring)
    (functions : after.functions = before.functions)
    (gains : before.Gains after)
    (grows : before.Grows after) :
    after.Declaring where
  toBlank := declaring.toBlank.gains functions gains
  members fits :=
    (declaring.members (grows.fits fits)).settles
      (gains.settles grows (congrArg Array.size functions))

/-- Nothing is compiled and no method is declared when a class is changed that stays blank. -/
theorem modifyClass
    (declaring : tree.Declaring)
    (index : Nat)
    {change : ClassDef → ClassDef}
    (blank : ∀ entry : ClassDef, entry.Blank → (change entry).Blank)
    (becomes : ∀ entry : ClassDef, entry.Becomes (change entry))
    (methods : ∀ entry : ClassDef, (change entry).methods = entry.methods) :
    Declaring { tree with classes := tree.classes.modify index change } where
  toBlank := declaring.toBlank.modifyClass index blank
  members fits :=
    (declaring.members ((Grows.modifyClass tree index becomes).fits fits)).modifyClass index
      becomes methods

section Functions

variable {function : FunctionDef} {owner : ClassId} {keys : Array String} {method : MethodDef}
  {visibility : Visibility}
  (declaring : tree.Declaring)
  (bare : function.body = none)
  (fresh :
    ∀ other ∈ tree.functions, other.owner = function.owner →
      other.signatureKey ≠ function.signatureKey)

include declaring bare fresh

/-- A function outside the classes is declared. -/
theorem declareFunction
    (isFree : function.owner = none) :
    Declaring { tree with functions := tree.functions.push function } where
  toBlank := declaring.toBlank.pushFunction bare
  members fits :=
    (declaring.members ((Grows.pushFunction tree function).fits fits)).declareFunction fresh isFree

/-- A function is declared for a class and becomes a method, with a key for its signature if any. -/
theorem declareMethod
    (inside : owner.index < tree.classes.size)
    (isUser : method.implementation = .user (Id.ofIndex tree.functions.size))
    (more : tree.methodKeys.size ≤ keys.size)
    (made : tree.Fits → tree.methodKeys.toList.Nodup →
      (∀ (index : Nat) key, tree.methodKeys[index]? = some key → keys[index]? = some key) ∧
        keys.toList.Nodup ∧
          (tree.withMethod owner function keys method).Implements owner method function) :
    (tree.withMethod owner function keys method).Declaring where
  bodies := (declaring.toBlank.pushFunction bare).bodies
  classes :=
    (@Blank.modifyClass tree declaring.toBlank owner.index
      (fun entry => { entry with methods := entry.methods ++ [method] })
      fun _ blank => blank).classes
  members fits := by
    have fitted : tree.Fits := by
      refine ⟨fits.exprs, fits.stmts, ?_, ?_, Nat.lt_of_le_of_lt more fits.methodKeys⟩
      · have functions := fits.functions
        simp only [withMethod, Array.size_push] at functions
        omega
      · have classes := fits.classes
        simp only [withMethod, Array.size_modify] at classes
        exact classes
    have members := declaring.members fitted
    obtain ⟨kept, nodup, implements⟩ := made fitted members.keys
    exact members.declareMethod fitted.functions fresh inside kept nodup isUser implements

/-- A constructor is declared. -/
theorem declareConstructor
    (inside : owner.index < tree.classes.size)
    (isOwner : function.owner = some owner)
    (isConstructor : function.name = (tree.classDef owner).name) :
    (tree.withMethod owner function tree.methodKeys
      ⟨function.name, .user (Id.ofIndex tree.functions.size), visibility, none⟩).Declaring := by
  refine declaring.declareMethod bare fresh inside rfl (Nat.le_refl _) fun _ nodup =>
    ⟨fun _ _ found => found, nodup, isOwner, rfl, fun _ => rfl, fun isNamed => ?_⟩
  exact absurd (isConstructor.trans (classDef_name_withMethod inside owner).symm) isNamed

/-- A method that is no constructor is declared under the slot of its signature. -/
theorem declareNamed
    {pushed : Tree}
    (inside : owner.index < tree.classes.size)
    (isOwner : function.owner = some owner)
    (isNamed : function.name ≠ (tree.classDef owner).name)
    (sameKeys : pushed.methodKeys = tree.methodKeys) :
    (tree.withMethod owner function (pushed.internMethodKey function.signatureKey).2.methodKeys
      ⟨function.name, .user (Id.ofIndex tree.functions.size), visibility,
        some (pushed.internMethodKey function.signatureKey).1⟩).Declaring := by
  have more := (Grows.internMethodKey pushed function.signatureKey).methodKeys
  rw [sameKeys] at more
  refine declaring.declareMethod bare fresh inside rfl more fun fits nodup => ?_
  obtain ⟨isKey, kept, nodup⟩ := internMethodKey_keys function.signatureKey
    (sameKeys ▸ nodup) (sameKeys ▸ fits.methodKeys)
  rw [sameKeys] at kept
  refine ⟨kept, nodup, isOwner, rfl, fun isConstructor => ?_, fun _ => ⟨_, rfl, isKey⟩⟩
  exact absurd (isConstructor.trans (classDef_name_withMethod inside owner)) isNamed

end Functions

end Declaring

end Tree

end BotScript
