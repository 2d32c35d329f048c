import BotScript.Proofs.ClassChains
import BotScript.Proofs.TreeSoundness

namespace BotScript

/-!
# Access to members

An access is checked against the classes that are known when it is compiled, and it is
allowed in the whole tree.  What a check has seen stays so: once all members are declared,
only classes of the host are added, and classes only get initializers for their fields.
-/

/-! ## Classes whose members are declared -/

/-- A field as it is declared, without the initializer that is compiled for it later. -/
def FieldDef.declared (field : FieldDef) : FieldDef :=
  { field with initial := none }

/-- A class goes on declaring the same members, and keeps its dispatch table. -/
structure ClassDef.Settled (before after : ClassDef) : Prop where
  fields : after.fields.map FieldDef.declared = before.fields.map FieldDef.declared
  statics : after.statics.map FieldDef.declared = before.statics.map FieldDef.declared
  methods : after.methods = before.methods
  dispatch : after.dispatch = before.dispatch
  isHost : after.isHost = before.isHost

namespace ClassDef.Settled

/-- A class that has not changed declares the same members. -/
theorem refl (entry : ClassDef) : entry.Settled entry :=
  ⟨rfl, rfl, rfl, rfl, rfl⟩

/-- A class declares the same members twice. -/
theorem trans
    {before between after : ClassDef}
    (first : before.Settled between)
    (second : between.Settled after) :
    before.Settled after :=
  ⟨second.fields.trans first.fields, second.statics.trans first.statics,
    second.methods.trans first.methods, second.dispatch.trans first.dispatch,
    second.isHost.trans first.isHost⟩

end ClassDef.Settled

/-- A class that declares the same fields has them under the same names. -/
theorem ClassDef.Settled.names
    {before after : ClassDef}
    (settled : before.Settled after) :
    after.fields.map (·.name) = before.fields.map (·.name) := by
  have same := congrArg (List.map FieldDef.name) settled.fields
  rwa [List.map_map, List.map_map] at same

/-- No initializer has been compiled for the fields of a class. -/
def ClassDef.Blank (entry : ClassDef) : Prop :=
  ∀ field ∈ entry.fields ++ entry.statics, field.initial = none

/-- A class of the host: none of its methods is one of the program, and it has no dispatch table. -/
structure ClassDef.IsImport (entry : ClassDef) : Prop where
  isHost : entry.isHost = true
  native : ∀ method ∈ entry.methods, ∀ id, method.implementation ≠ .user id
  dispatch : entry.dispatch = []

/-- A class of the host stays one. -/
theorem ClassDef.IsImport.settled
    {before after : ClassDef}
    (isImport : before.IsImport)
    (settled : before.Settled after) :
    after.IsImport :=
  ⟨settled.isHost.trans isImport.isHost, settled.methods ▸ isImport.native,
    settled.dispatch.trans isImport.dispatch⟩

/-- The fields of classes and instances are counted by words. -/
structure Tree.FieldsFit (tree : Tree) : Prop where
  statics : ∀ entry ∈ tree.classes, entry.statics.length < UInt32.size
  instances :
    ∀ index < tree.classes.size,
      (tree.instanceFields (Id.ofIndex index)).length < UInt32.size

instance (tree : Tree) : Decidable tree.FieldsFit :=
  decidable_of_iff
    ((∀ entry ∈ tree.classes, entry.statics.length < UInt32.size) ∧
      ∀ index < tree.classes.size,
        (tree.instanceFields (Id.ofIndex index)).length < UInt32.size)
    ⟨fun lengths => ⟨lengths.1, lengths.2⟩, fun fields => ⟨fields.statics, fields.instances⟩⟩

/-- A tree in which words count everything, and in which the ancestors of every class end. -/
structure Tree.Whole (tree : Tree) : Prop where
  fits : tree.Fits
  fields : tree.FieldsFit
  rooted : ∀ id, tree.Rooted id

/-- Classes are kept as they are, and those that are added are blank classes of the host. -/
structure Tree.Gains (before after : Tree) : Prop where
  kept :
    ∀ (index : Nat) entry, before.classes[index]? = some entry →
      after.classes[index]? = some entry
  added :
    ∀ (index : Nat) entry, after.classes[index]? = some entry →
      before.classes[index]? = some entry ∨ entry.Blank ∧ entry.IsImport
  methodKeys : after.methodKeys = before.methodKeys

/-- One tree has grown out of another one, of which all classes have declared their members. -/
structure Tree.Settles (before after : Tree) : Prop where
  grows : before.Grows after
  classes :
    ∀ (index : Nat) entry, before.classes[index]? = some entry →
      ∃ later, after.classes[index]? = some later ∧ entry.Settled later
  added :
    ∀ (index : Nat) entry, after.classes[index]? = some entry →
      index < before.classes.size ∨ entry.IsImport
  functions : after.functions.size = before.functions.size
  methodKeys : after.methodKeys = before.methodKeys

/-- Something holds of every whole tree that a tree becomes without declaring more members. -/
def Tree.Finally (tree : Tree) (holds : Tree → Prop) : Prop :=
  ∀ final : Tree, final.Whole → tree.Settles final → holds final

/-! ## Fields that are found -/

/-- A field that a name finds is the field of the instances at its index, and has the name. -/
theorem Compile.instanceField?_found
    {tree : Tree}
    {id owner : ClassId}
    {name : String}
    {index : Nat}
    {field : FieldDef}
    (found : Compile.instanceField? tree id name = some (index, owner, field)) :
    (tree.instanceFields id)[index]? = some (owner, field) ∧ field.name = name := by
  unfold Compile.instanceField? at found
  obtain ⟨⟨⟨declaring, entry⟩, position⟩, isEntry, same⟩ := Option.map_eq_some_iff.mp found
  cases same
  refine ⟨List.mem_zipIdx_iff_getElem?.mp
    (List.mem_reverse.mp (List.mem_of_find?_eq_some isEntry)), ?_⟩
  simpa using List.find?_some isEntry

/-- A static field that is found is that of its class at its index. -/
theorem Compile.staticField?_found
    {tree : Tree}
    {name : String}
    {chain : List ClassId}
    {index : Nat}
    {owner : ClassId}
    {field : FieldDef}
    (found : Compile.staticField? tree name chain = some (index, owner, field)) :
    (tree.classDef owner).statics[index]? = some field := by
  induction chain with
  | nil => cases found
  | cons first ancestors inductionHypothesis =>
      unfold Compile.staticField? at found
      split at found
      · next entry position isEntry =>
          cases found
          exact List.mem_zipIdx_iff_getElem?.mp (List.mem_of_find?_eq_some isEntry)
      · exact inductionHypothesis found

namespace Tree

variable {before between after tree : Tree} {id : ClassId}

/-- The parents of the classes of a sound tree are in it. -/
theorem Sound.parents
    {context : CompileContext}
    {known : NativeId → Prop}
    {own : Nat}
    (sound : tree.Sound context known own) :
    tree.ParentsInside :=
  fun entry isEntry => (sound.classes entry isEntry).parent

namespace Gains

/-- The classes and the method keys are those they were. -/
theorem ofClasses
    (same : after.classes = before.classes)
    (methodKeys : after.methodKeys = before.methodKeys) :
    before.Gains after :=
  ⟨fun _ _ found => same ▸ found, fun _ _ found => .inl (same ▸ found), methodKeys⟩

/-- Nothing has changed. -/
theorem refl (tree : Tree) : tree.Gains tree :=
  ofClasses rfl rfl

/-- Classes have been added twice. -/
theorem trans
    (first : before.Gains between)
    (second : between.Gains after) :
    before.Gains after where
  kept index entry found := second.kept index entry (first.kept index entry found)
  added index entry found := (second.added index entry found).elim (first.added index entry) .inr
  methodKeys := second.methodKeys.trans first.methodKeys

/-- A class of the host is added. -/
theorem pushClass
    (tree : Tree)
    {entry : ClassDef}
    (blank : entry.Blank)
    (isImport : entry.IsImport) :
    tree.Gains { tree with classes := tree.classes.push entry } where
  kept _ _ found := Array.found_push found
  added _ _ found := by
    obtain old | ⟨-, rfl⟩ := Array.push_found found
    · exact .inl old
    · exact .inr ⟨blank, isImport⟩
  methodKeys := rfl

/-- A tree that gains classes and no functions only settles. -/
theorem settles
    (gains : before.Gains after)
    (grows : before.Grows after)
    (functions : after.functions.size = before.functions.size) :
    before.Settles after where
  grows := grows
  classes index entry found := ⟨entry, gains.kept index entry found, .refl entry⟩
  added index entry found :=
    (gains.added index entry found).imp (fun old => (Array.getElem?_eq_some_iff.mp old).1) And.right
  functions := functions
  methodKeys := gains.methodKeys

end Gains

namespace Settles

/-- A tree settles to itself. -/
theorem refl (tree : Tree) : tree.Settles tree :=
  (Gains.refl tree).settles (.refl tree) rfl

/-- A tree settles twice. -/
theorem trans
    (first : before.Settles between)
    (second : between.Settles after) :
    before.Settles after where
  grows := first.grows.trans second.grows
  classes index entry found := by
    obtain ⟨later, isLater, settled⟩ := first.classes index entry found
    obtain ⟨last, isLast, further⟩ := second.classes index later isLater
    exact ⟨last, isLast, settled.trans further⟩
  added index entry found := by
    obtain inside | isImport := second.added index entry found
    · have isMiddle := Array.getElem?_eq_getElem inside
      obtain ⟨last, isLast, settled⟩ := second.classes index _ isMiddle
      cases found.symm.trans isLast
      exact (first.added index _ isMiddle).imp (fun old => old) fun isImport =>
        isImport.settled settled
    · exact .inr isImport
  functions := second.functions.trans first.functions
  methodKeys := second.methodKeys.trans first.methodKeys

/-- A class gets initializers for its fields. -/
theorem modifyClass
    (tree : Tree)
    (index : Nat)
    {change : ClassDef → ClassDef}
    (becomes : ∀ entry : ClassDef, entry.Becomes (change entry))
    (settled : ∀ entry : ClassDef, entry.Settled (change entry)) :
    tree.Settles { tree with classes := tree.classes.modify index change } where
  grows := .modifyClass tree index becomes
  classes position entry found := by
    rw [Array.getElem?_modify, found]
    split
    · exact ⟨change entry, rfl, settled entry⟩
    · exact ⟨entry, rfl, .refl entry⟩
  added position entry found := by
    obtain ⟨inside, -⟩ := Array.getElem?_eq_some_iff.mp found
    exact .inl (Array.size_modify ▸ inside)
  functions := rfl
  methodKeys := rfl

/-- A class of the tree goes on declaring the same members. -/
theorem classDef
    (settles : before.Settles after)
    (inside : id.index < before.classes.size) :
    (before.classDef id).Settled (after.classDef id) := by
  have found := Array.getElem?_eq_getElem inside
  obtain ⟨later, isLater, settled⟩ := settles.classes _ _ found
  rw [Tree.classDef, Tree.classDef, Tree.class?, Tree.class?, isLater, found]
  exact settled

end Settles

/-- What finally holds goes on doing so. -/
theorem Finally.mono
    {holds : Tree → Prop}
    (ends : before.Finally holds)
    (settles : before.Settles after) :
    after.Finally holds :=
  fun final whole later => ends final whole (settles.trans later)

/-! ## Members that code may name -/

/--
An expression names a member with a visibility that a class declares.  A field is the one that
its name finds among those of the instances of the class of the object.
-/
def Names (tree : Tree) (owner : ClassId) (visibility : Visibility) : ExprKind → Prop
  | .field object index =>
      ∃ id field, tree.ClassOf (tree.expr object).ty id ∧
        (tree.instanceFields id)[index.toNat]? = some (owner, field) ∧
          Compile.instanceField? tree id field.name = some (index.toNat, owner, field) ∧
            field.visibility = visibility
  | .staticField declaring index =>
      declaring = owner ∧ ∃ field, (tree.classDef owner).statics[index.toNat]? = some field ∧
        field.visibility = visibility
  | .methodCall object slot target _ =>
      ∃ id method, tree.ClassOf (tree.expr object).ty id ∧ owner ∈ tree.classChain id ∧
        method ∈ (tree.classDef owner).methods ∧ method.name ≠ (tree.classDef owner).name ∧
          method.slot = slot ∧ method.implementation = target ∧ method.visibility = visibility
  | .new created (some target) _ =>
      created = owner ∧ ∃ method ∈ (tree.classDef owner).methods,
        method.name = (tree.classDef owner).name ∧ method.implementation = target ∧
          method.visibility = visibility
  | _ => False

end Tree

/-- Whether an expression names a field, a method or a constructor. -/
def ExprKind.isMember : ExprKind → Bool
  | .field _ _ | .staticField _ _ | .methodCall _ _ _ _ | .new _ (some _) _ => true
  | _ => false

namespace Tree

variable {before final tree : Tree} {site : Option ClassId}

/-- An expression names no member, or one that code of a class, or of none, may use. -/
def MayName (tree : Tree) (site : Option ClassId) (kind : ExprKind) : Prop :=
  kind.isMember = true →
    ∃ owner visibility, tree.Names owner visibility kind ∧
      tree.admits site owner visibility = true

/-- Code of every class may use an expression that names no member. -/
theorem Finally.ofOther
    {kind : ExprKind}
    (isOther : kind.isMember = false) :
    tree.Finally fun final => final.MayName site kind :=
  fun _ _ _ isMember => Bool.noConfusion (isMember.symm.trans isOther)

/-- An expression is another one or has it as a part. -/
inductive Evaluates (tree : Tree) : ExprId → ExprId → Prop where
  | itself {id : ExprId} : Evaluates tree id id
  | within {id child part : ExprId} {node : Expr} :
      tree.expr? id = some node → child ∈ node.kind.children → Evaluates tree child part →
      Evaluates tree id part

/-- A statement has an expression as a part. -/
inductive Executes (tree : Tree) : StmtId → ExprId → Prop where
  | here {id : StmtId} {node : Stmt} {value part : ExprId} :
      tree.stmt? id = some node → value ∈ node.kind.childExprs → tree.Evaluates value part →
      Executes tree id part
  | within {id child : StmtId} {node : Stmt} {part : ExprId} :
      tree.stmt? id = some node → child ∈ node.kind.childStmts → Executes tree child part →
      Executes tree id part

/-- Code of a class, or of none, may use all members that an expression names. -/
def MayEvaluate (tree : Tree) (site : Option ClassId) (id : ExprId) : Prop :=
  ∀ part, tree.Evaluates id part → tree.MayName site (tree.expr part).kind

/-- Code of a class, or of none, may use all members that a statement names. -/
def MayExecute (tree : Tree) (site : Option ClassId) (id : StmtId) : Prop :=
  ∀ part, tree.Executes id part → tree.MayName site (tree.expr part).kind

/-- An expression may be evaluated if it names a member that may be named, and its parts may. -/
theorem mayEvaluate_of
    {id : ExprId}
    {node : Expr}
    (found : tree.expr? id = some node)
    (names : tree.MayName site node.kind)
    (children : ∀ child ∈ node.kind.children, tree.MayEvaluate site child) :
    tree.MayEvaluate site id := by
  intro part evaluates
  cases evaluates with
  | itself =>
      rw [expr, found]
      exact names
  | within isNode isChild evaluates =>
      cases found.symm.trans isNode
      exact children _ isChild part evaluates

/-- Code of every class may evaluate a literal. -/
theorem mayEvaluate_literal
    {id : ExprId}
    {value : LiteralValue}
    (inside : id.index < tree.exprs.size)
    (isLiteral : (tree.expr id).kind = .literal value) :
    tree.MayEvaluate site id := by
  have found := Array.getElem?_eq_getElem inside
  rw [expr, expr?, found] at isLiteral
  have isLiteral : (tree.exprs[id.index]).kind = .literal value := isLiteral
  refine mayEvaluate_of found ?_ ?_
  · rw [isLiteral]
    exact fun isMember => Bool.noConfusion isMember
  · rw [isLiteral]
    exact List.forall_mem_nil _

/-- A statement may be executed if its parts may. -/
theorem mayExecute_of
    {id : StmtId}
    {node : Stmt}
    (found : tree.stmt? id = some node)
    (exprs : ∀ value ∈ node.kind.childExprs, tree.MayEvaluate site value)
    (children : ∀ child ∈ node.kind.childStmts, tree.MayExecute site child) :
    tree.MayExecute site id := by
  intro part executes
  cases executes with
  | here isNode isPart evaluates =>
      cases found.symm.trans isNode
      exact exprs _ isPart part evaluates
  | within isNode isChild executes =>
      cases found.symm.trans isNode
      exact children _ isChild part executes

/-- The visibility of members is respected by what has been compiled for a tree. -/
structure Guards (final tree : Tree) : Prop where
  bodies :
    ∀ function ∈ tree.functions, ∀ body ∈ function.body, final.MayExecute function.owner body
  initials :
    ∀ (index : Nat) entry, tree.classes[index]? = some entry →
      ∀ field ∈ entry.fields ++ entry.statics, ∀ id ∈ field.initial,
        final.MayEvaluate (some (Id.ofIndex index)) id

namespace Guards

/-- The visibility of members is respected when classes are added. -/
theorem gains
    (guards : final.Guards before)
    (functions : tree.functions = before.functions)
    (gains : before.Gains tree) :
    final.Guards tree where
  bodies := functions ▸ guards.bodies
  initials index entry found field isField id isInitial := by
    obtain old | ⟨blank, -⟩ := gains.added index entry found
    · exact guards.initials index entry old field isField id isInitial
    · rw [blank field isField] at isInitial
      cases isInitial

/-- The visibility of members is respected when it is in the new initializers of a class. -/
theorem modifyClass
    (guards : final.Guards tree)
    (owner : ClassId)
    {change : ClassDef → ClassDef}
    (initials : ∀ entry : ClassDef, ∀ field ∈ (change entry).fields ++ (change entry).statics,
      ∀ id ∈ field.initial,
        (∃ old ∈ entry.fields ++ entry.statics, id ∈ old.initial) ∨
          final.MayEvaluate (some owner) id) :
    final.Guards { tree with classes := tree.classes.modify owner.index change } where
  bodies := guards.bodies
  initials index entry found field isField id isInitial := by
    rw [Array.getElem?_modify] at found
    split at found
    · next isOwner =>
      obtain ⟨old, isOld, rfl⟩ := Option.map_eq_some_iff.mp found
      obtain ⟨earlier, isEarlier, isIts⟩ | new := initials old field isField id isInitial
      · exact guards.initials index old isOld earlier isEarlier id isIts
      · rwa [← isOwner, Id.ofIndex_index]
    · exact guards.initials index entry found field isField id isInitial

/-- The visibility of members is respected when it is in the new body of a function. -/
theorem modifyFunction
    (guards : final.Guards tree)
    (index : Nat)
    {change : FunctionDef → FunctionDef}
    (sameOwner : ∀ function : FunctionDef, (change function).owner = function.owner)
    (bodies : ∀ function, tree.functions[index]? = some function →
      ∀ body ∈ (change function).body, final.MayExecute function.owner body) :
    final.Guards { tree with functions := tree.functions.modify index change } where
  initials := guards.initials
  bodies function isFunction body isBody := by
    obtain ⟨position, found⟩ := Array.mem_iff_getElem?.mp isFunction
    rw [Array.getElem?_modify] at found
    split at found
    · next isIndex =>
      obtain ⟨old, isOld, rfl⟩ := Option.map_eq_some_iff.mp found
      rw [sameOwner]
      exact bodies old (isIndex ▸ isOld) body isBody
    · exact guards.bodies function (Array.mem_of_getElem? found) body isBody

end Guards

/-- Nothing has been compiled: no function has a body, and no field an initializer. -/
structure Blank (tree : Tree) : Prop where
  bodies : ∀ function ∈ tree.functions, function.body = none
  classes : ∀ entry ∈ tree.classes, entry.Blank

/-- Where nothing has been compiled, the visibility of members is respected. -/
theorem Blank.guards
    (blank : tree.Blank) :
    final.Guards tree where
  bodies function isFunction body isBody := by
    rw [blank.bodies function isFunction] at isBody
    cases isBody
  initials index entry found field isField id isInitial := by
    rw [blank.classes entry (Array.mem_of_getElem? found) field isField] at isInitial
    cases isInitial

/-- Nothing is compiled when classes are added. -/
theorem Blank.gains
    (blank : before.Blank)
    (functions : tree.functions = before.functions)
    (gains : before.Gains tree) :
    tree.Blank where
  bodies := functions ▸ blank.bodies
  classes entry isEntry := by
    obtain ⟨index, found⟩ := Array.mem_iff_getElem?.mp isEntry
    exact (gains.added index entry found).elim
      (fun old => blank.classes entry (Array.mem_of_getElem? old)) And.left

/-- Nothing is compiled when a class is changed that stays blank. -/
theorem Blank.modifyClass
    (blank : tree.Blank)
    (index : Nat)
    {change : ClassDef → ClassDef}
    (stays : ∀ entry : ClassDef, entry.Blank → (change entry).Blank) :
    Blank { tree with classes := tree.classes.modify index change } where
  bodies := blank.bodies
  classes entry isEntry := by
    obtain ⟨position, found⟩ := Array.mem_iff_getElem?.mp isEntry
    rw [Array.getElem?_modify] at found
    split at found
    · obtain ⟨old, isOld, rfl⟩ := Option.map_eq_some_iff.mp found
      exact stays old (blank.classes old (Array.mem_of_getElem? isOld))
    · exact blank.classes entry (Array.mem_of_getElem? found)

/-- Nothing is compiled when a function is declared. -/
theorem Blank.pushFunction
    (blank : tree.Blank)
    {function : FunctionDef}
    (isNew : function.body = none) :
    Blank { tree with functions := tree.functions.push function } where
  bodies other member := by
    obtain member | rfl := Array.mem_push.mp member
    · exact blank.bodies other member
    · exact isNew
  classes := blank.classes

/-! ## Checks that stay valid -/

/-- A member that may be used may be used in the end. -/
theorem Grows.admits
    (grows : before.Grows final)
    {owner : ClassId}
    {visibility : Visibility}
    (admits : before.admits site owner visibility = true) :
    final.admits site owner visibility = true := by
  cases visibility with
  | publicAccess => rfl
  | privateAccess => exact admits
  | protectedAccess =>
      cases site with
      | none => cases admits
      | some site =>
          have inherits : owner ∈ before.classChain site := List.contains_iff_mem.mp admits
          exact List.contains_iff_mem.mpr ((grows.classChain site).subset inherits)

/-- A class that has a static field is in the tree. -/
theorem inside_of_static
    {id : ClassId}
    {field : FieldDef}
    {index : Nat}
    (found : (tree.classDef id).statics[index]? = some field) :
    id.index < tree.classes.size := by
  by_contra outside
  rw [classDef, class?, Array.getElem?_eq_none (Nat.le_of_not_lt outside)] at found
  cases found

/-- Fields that are declared in the same way have the same visibility. -/
private theorem found_of_declared
    {fields later : List FieldDef}
    {index : Nat}
    {field : FieldDef}
    (same : later.map FieldDef.declared = fields.map FieldDef.declared)
    (found : fields[index]? = some field) :
    ∃ last, later[index]? = some last ∧ last.visibility = field.visibility := by
  have isDeclared : (later.map FieldDef.declared)[index]? = some field.declared := by
    rw [same, List.getElem?_map, found]
    rfl
  rw [List.getElem?_map, Option.map_eq_some_iff] at isDeclared
  obtain ⟨last, isLast, declares⟩ := isDeclared
  have sameVisibility : last.declared.visibility = field.declared.visibility :=
    congrArg FieldDef.visibility declares
  exact ⟨last, isLast, sameVisibility⟩

namespace Settles

variable {id owner : ClassId} {field : FieldDef} {index : Nat}
  (settles : before.Settles final)

include settles

/-- The instances of a class go on having the fields that its chain declares. -/
theorem instanceFields_declared
    (rooted : final.Rooted id)
    (parents : before.ParentsInside)
    (inside : id.index < before.classes.size) :
    (final.instanceFields id).map (Prod.map (fun owner => owner) FieldDef.declared) =
      (before.instanceFields id).map (Prod.map (fun owner => owner) FieldDef.declared) := by
  have sameChain := rooted.classChain_shrink settles.grows parents inside
  have declares (tree : Tree) :
      (tree.instanceFields id).map (Prod.map (fun owner => owner) FieldDef.declared) =
        (tree.classChain id).reverse.flatMap fun owner =>
          ((tree.classDef owner).fields.map FieldDef.declared).map fun field => (owner, field) := by
    simp [Tree.instanceFields, List.map_flatMap, Function.comp_def]
  rw [declares, declares, ← sameChain]
  refine List.flatMap_congr fun owner isOwner => ?_
  rw [(settles.classDef (parents.classChain inside owner (List.mem_reverse.mp isOwner))).fields]

/-- A name goes on finding the same field of the instances of a class. -/
theorem instanceField?
    {name : String}
    (rooted : final.Rooted id)
    (parents : before.ParentsInside)
    (inside : id.index < before.classes.size)
    (found : Compile.instanceField? before id name = some (index, owner, field)) :
    ∃ last, Compile.instanceField? final id name = some (index, owner, last) ∧
      last.declared = field.declared := by
  let declare : (ClassId × FieldDef) × Nat → (ClassId × FieldDef) × Nat :=
    Prod.map (Prod.map (fun owner => owner) FieldDef.declared) fun index => index
  let isNamed (entry : (ClassId × FieldDef) × Nat) : Bool := entry.1.2.name == name
  have finds (tree : Tree) :
      ((tree.instanceFields id).zipIdx.reverse.find? isNamed).map declare =
        (((tree.instanceFields id).map
          (Prod.map (fun owner => owner) FieldDef.declared)).zipIdx.reverse.find? isNamed) := by
    rw [List.zipIdx_map, ← List.map_reverse, List.find?_map]
    rfl
  have same : ((final.instanceFields id).zipIdx.reverse.find? isNamed).map declare =
      ((before.instanceFields id).zipIdx.reverse.find? isNamed).map declare := by
    rw [finds, finds, settles.instanceFields_declared rooted parents inside]
  obtain ⟨⟨⟨declaring, entry⟩, position⟩, isEntry, isFound⟩ := Option.map_eq_some_iff.mp found
  cases isFound
  rw [isEntry, Option.map_some, Option.map_eq_some_iff] at same
  obtain ⟨⟨⟨other, last⟩, place⟩, isLast, sameEntry⟩ := same
  obtain ⟨⟨sameOwner, sameField⟩, samePlace⟩ :
      (other = owner ∧ last.declared = field.declared) ∧ place = index := by
    simpa [declare] using sameEntry
  subst sameOwner samePlace
  exact ⟨last, congrArg (Option.map _) isLast, sameField⟩

/-- A field of an object that has been checked may be named. -/
theorem mayName_field
    {object : ExprId}
    (whole : final.Whole)
    (parents : before.ParentsInside)
    (inside : id.index < before.classes.size)
    {name : String}
    (isClass : final.ClassOf (final.expr object).ty id)
    (found : Compile.instanceField? before id name = some (index, owner, field))
    (admits : before.admits site owner field.visibility = true) :
    final.MayName site (.field object (Word.ofNat index)) := by
  obtain ⟨last, isFound, sameField⟩ :=
    settles.instanceField? (whole.rooted id) parents inside found
  obtain ⟨isLast, isNamed⟩ := Compile.instanceField?_found isFound
  have sameVisibility : last.declared.visibility = field.declared.visibility :=
    congrArg FieldDef.visibility sameField
  have counted : index < UInt32.size := by
    have few := whole.fields.instances id.index
      (Nat.lt_of_lt_of_le inside settles.grows.classes_size)
    rw [Id.ofIndex_index] at few
    exact Nat.lt_trans (List.getElem?_eq_some_iff.mp isLast).1 few
  have isIndex : (Word.ofNat index).toNat = index := @Id.index_ofIndex .locals index counted
  refine fun _ => ⟨owner, field.visibility, ⟨id, last, isClass, ?_, ?_, sameVisibility⟩,
    settles.grows.admits admits⟩
  · rw [isIndex]
    exact isLast
  · rw [isIndex, isNamed]
    exact isFound

/-- A static field that has been checked may be named. -/
theorem mayName_static
    (whole : final.Whole)
    (found : (before.classDef owner).statics[index]? = some field)
    (admits : before.admits site owner field.visibility = true) :
    final.MayName site (.staticField owner (Word.ofNat index)) := by
  have inside := inside_of_static found
  obtain ⟨last, isLast, sameVisibility⟩ :=
    found_of_declared (settles.classDef inside).statics found
  have counted : index < UInt32.size := by
    have later := Nat.lt_of_lt_of_le inside settles.grows.classes_size
    have few := whole.fields.statics (final.classDef owner) (by
      rw [Tree.classDef, class?, Array.getElem?_eq_getElem later]
      exact Array.getElem_mem later)
    exact Nat.lt_trans (List.getElem?_eq_some_iff.mp isLast).1 few
  have isIndex : (Word.ofNat index).toNat = index := @Id.index_ofIndex .locals index counted
  refine fun _ => ⟨owner, field.visibility, ⟨rfl, last, ?_, sameVisibility⟩,
    settles.grows.admits admits⟩
  rw [isIndex]
  exact isLast

/-- A method of an object that has been checked may be named. -/
theorem mayName_method
    {object : ExprId}
    {method : MethodDef}
    {arguments : List ExprId}
    (isClass : final.ClassOf (final.expr object).ty id)
    (inherits : owner ∈ before.classChain id)
    (isMethod : method ∈ (before.classDef owner).methods)
    (isOther : method.name ≠ (before.classDef owner).name)
    (admits : before.admits site owner method.visibility = true) :
    final.MayName site (.methodCall object method.slot method.implementation arguments) := by
  have grows := settles.grows
  rw [← (grows.classDef (inside_of_method isMethod)).name] at isOther
  exact fun _ => ⟨owner, method.visibility,
    ⟨id, method, isClass, (grows.classChain id).subset inherits,
      (grows.methods owner).subset isMethod, isOther, rfl, rfl, rfl⟩, grows.admits admits⟩

/-- A constructor that has been checked may be named. -/
theorem mayName_new
    {method : MethodDef}
    {arguments : List ExprId}
    (isMethod : method ∈ (before.classDef owner).methods)
    (isConstructor : method.name = (before.classDef owner).name)
    (admits : before.admits site owner method.visibility = true) :
    final.MayName site (.new owner (some method.implementation) arguments) := by
  have grows := settles.grows
  rw [← (grows.classDef (inside_of_method isMethod)).name] at isConstructor
  exact fun _ => ⟨owner, method.visibility,
    ⟨rfl, method, (grows.methods owner).subset isMethod, isConstructor, rfl, rfl⟩,
    grows.admits admits⟩

end Settles

end Tree

end BotScript
