import BotScript.Proofs.TwinStatements

namespace BotScript

/-!
# Twin declarations

The first pass of two compilations finds the same classes and functions, and
the second one declares the same members and signatures.
-/

/-! ## Changes at a position -/

/-- Lists that look the same still do after changes that keep the looks the same. -/
theorem map_modify_of_map
    {α β : Type}
    {look : α → β}
    {first second : List α}
    {change twin : α → α}
    (same : second.map look = first.map look)
    (keeps : ∀ part other, look other = look part → look (twin other) = look (change part))
    (index : Nat) :
    (second.modify index twin).map look = (first.modify index change).map look := by
  refine List.ext_getElem? fun position => ?_
  have found : (second[position]?).map look = (first[position]?).map look := by
    simpa using congrArg (·[position]?) same
  simp only [List.getElem?_map, List.getElem?_modify, Option.map_eq_map]
  obtain ⟨isFirst, isSecond⟩ | ⟨part, other, isFirst, isSecond, alike⟩ := paired_of_map found
  · rw [isFirst, isSecond]
    rfl
  · rw [isFirst, isSecond]
    simp only [Option.map_some, Option.some.injEq]
    split
    · exact keeps part other alike
    · exact alike

/-- Tables that look the same still do after changes that keep the looks the same. -/
theorem array_map_modify_of_map
    {α β : Type}
    {look : α → β}
    {first second : Array α}
    {change twin : α → α}
    (same : second.map look = first.map look)
    (keeps : ∀ part other, look other = look part → look (twin other) = look (change part))
    (index : Nat) :
    (second.modify index twin).map look = (first.modify index change).map look := by
  have lists : second.toList.map look = first.toList.map look := by
    simpa using congrArg Array.toList same
  exact Array.ext' (by simpa using map_modify_of_map lists keeps index)

namespace Compile

variable {α β γ δ σ ι : Type} {twins : Twins} {least : Nat} {state : CompileState} {other : Tree}

/-! ## Steps over lists -/

/-- Steps over two lists that correspond part by part. -/
theorem Matches.forEach
    {left : ι → α}
    {right : ι → β}
    {step : α → Compile Unit}
    {twin : β → Compile Unit}
    (parts : List ι)
    (each : ∀ part ∈ parts, Matches twins least (step (left part)) (twin (right part))) :
    Matches twins least ((parts.map left).forM step) ((parts.map right).forM twin) := by
  induction parts with
  | nil => exact .pure ()
  | cons part parts inductionHypothesis =>
      obtain ⟨first, rest⟩ := List.forall_mem_cons.mp each
      exact .andThen fun _ => inductionHypothesis rest

/-- Steps over the parts of one list. -/
theorem Matches.forM
    {step twin : α → Compile Unit}
    (parts : List α)
    (each : ∀ part ∈ parts, Matches twins least (step part) (twin part)) :
    Matches twins least (parts.forM step) (parts.forM twin) := by
  simpa using @Matches.forEach α α α twins least id id step twin parts each

/-! ## Positions -/

/-- A position that may be returned to. -/
def Reachable (twins : Twins) (least position : Nat) : Prop :=
  least ≤ position ∧ position < twins.first.tokens.size

/-- Both compilations return to a position. -/
theorem Alike.moveTo
    {position : Nat}
    (reachable : Reachable twins least position) :
    Alike twins least state other (fun after _ _ => after.position = position)
      (Compile.moveTo position) (Compile.moveTo position) :=
  fun corresponds =>
    .accepted (corresponds.moved reachable.1 reachable.2) (Nat.le_refl _) rfl

/-- Both compilations return to a position behind a token, and what follows. -/
theorem Alike.returning
    {post : CompileState → γ → δ → Prop}
    {position : Nat}
    {next : Unit → Compile γ}
    {after : Unit → Compile δ}
    (reachable : Reachable twins 1 position)
    (rest : ∀ between tree, Alike twins 1 between tree post (next ()) (after ())) :
    Alike twins 0 state other post (Compile.moveTo position >>= next)
      (Compile.moveTo position >>= after) := by
  have moved : Reachable twins 0 position := ⟨Nat.zero_le _, reachable.2⟩
  refine (Alike.moveTo moved).bind fun between tree _ _ _ isThere => ?_
  exact .raise (Nat.zero_le 1) (isThere ▸ reachable.1) (rest between tree)

/-- The position at hand may be returned to. -/
theorem Alike.atPosition
    {post : CompileState → γ → δ → Prop}
    {next : CompileState → Compile γ}
    {after : CompileState → Compile δ}
    (rest : ∀ position scope (tree twin : Tree), Reachable twins least position →
      Alike twins least state other post (next ⟨position, tree, scope⟩)
        (after ⟨position, twin, scope⟩)) :
    Alike twins least state other post (get >>= next) (get >>= after) :=
  .onState fun position scope tree twin _ reached inside =>
    rest position scope tree twin ⟨reached, inside⟩

/-! ## Tables of classes and functions -/

/-- The tables of classes and method keys are replaced in both trees. -/
theorem Alike.setClasses
    {classes others : Array ClassDef}
    {keys otherKeys : Array String}
    (same : others.map ClassDef.shape = classes.map ClassDef.shape)
    (sameKeys : otherKeys = keys)
    (places : Along twins.Places ClassDef.span classes others) :
    Alike twins least state other (fun _ _ _ => True)
      (Compile.setTree { state.tree with classes := classes, methodKeys := keys })
      (Compile.setTree { other with classes := others, methodKeys := otherKeys }) :=
  .withTwin fun corresponds => by
    have shape := corresponds.shape
    simp only [Tree.shape, Tree.mk.injEq] at shape
    refine .setTree ?_ (Nat.le_refl _) { corresponds.placed with classes := places }
    simp [Tree.shape, shape, same, sameKeys]

/-- A class is changed in both trees and stays at its place. -/
theorem Matches.modifyClass
    {change twin : ClassDef → ClassDef}
    (same : ∀ entry other : ClassDef, other.shape = entry.shape →
      (twin other).shape = (change entry).shape)
    (keeps : ∀ entry, (change entry).span = entry.span)
    (twinKeeps : ∀ entry, (twin entry).span = entry.span)
    (id : ClassId) :
    Matches twins least (Compile.modifyClass id change) (Compile.modifyClass id twin) where
  alike state other := by
    unfold Compile.modifyClass
    refine .withTwin fun corresponds => .reading rfl rfl ?_
    have classes : other.classes.map ClassDef.shape = state.tree.classes.map ClassDef.shape :=
      congrArg (·.classes) corresponds.shape
    have keys : other.methodKeys = state.tree.methodKeys :=
      congrArg (·.methodKeys) corresponds.shape
    have places := corresponds.placed.classes.stays (.modify keeps id.index) (.modify twinKeeps id.index)
    exact (Alike.setClasses (array_map_modify_of_map classes same id.index) keys places).weaken
      fun _ _ _ _ _ => rfl

/-! ## First pass -/

/-- A class that both compilations have found. -/
structure FoundClass (twins : Twins) where
  id : ClassId
  parent : Option (String × Stretch twins)
  body : Nat
  inside : Reachable twins 0 body

/-- The class as the first compilation has found it. -/
def FoundClass.left (found : FoundClass twins) : ClassItem :=
  ⟨found.id, found.parent.map fun parent => (parent.1, parent.2.left), found.body⟩

/-- The class as the second compilation has found it. -/
def FoundClass.right (found : FoundClass twins) : ClassItem :=
  ⟨found.id, found.parent.map fun parent => (parent.1, parent.2.right), found.body⟩

/-- The place at which a class names its parent, if it does. -/
def FoundClass.place (found : FoundClass twins) : Place twins where
  left := (found.left.parent.map (·.2)).getD .none
  right := (found.right.parent.map (·.2)).getD .none
  places := by
    obtain ⟨id, parent, body, inside⟩ := found
    cases parent with
    | none => exact .inl ⟨rfl, rfl⟩
    | some parent => exact parent.2.places

/-- What the first pass of both compilations has found. -/
structure FoundItems (twins : Twins) where
  classes : List (FoundClass twins)
  functions : List Nat
  inside : ∀ start ∈ functions, Reachable twins 0 start

/-- The items as the first compilation has found them. -/
def FoundItems.left (found : FoundItems twins) : Outline :=
  ⟨found.classes.map FoundClass.left, found.functions⟩

/-- The items as the second compilation has found them. -/
def FoundItems.right (found : FoundItems twins) : Outline :=
  ⟨found.classes.map FoundClass.right, found.functions⟩

/-- Two parents of one name at corresponding spans, or none. -/
def Parents (twins : Twins) (_ : CompileState) (parent other : Option (String × Span)) : Prop :=
  ∃ common : Option (String × Stretch twins),
    parent = common.map (fun parent => (parent.1, parent.2.left)) ∧
      other = common.map fun parent => (parent.1, parent.2.right)

/-- A class behind its keyword. -/
theorem Alike.scanClass :
    Alike twins least state other
      (fun _ item twin => ∃ found : FoundClass twins, item = found.left ∧ twin = found.right)
      Compile.scanClass Compile.scanClass := by
  unfold Compile.scanClass
  refine .yielding fun _ _ named _ => .reading rfl rfl (.onTree fun tree twin shape => ?_)
  rw [Twins.registry_first, Twins.registry_second,
    Tree.same_of_shape shape (·.classNamed? named.1) fun tree => tree.classNamed?_shape named.1]
  dsimp only
  refine .ite (fun _ => .failedThen named.2.places) fun _ => .behind fun _ _ hasParent _ => ?_
  have noParent (state : CompileState) (other : Tree) :
      Alike twins least state other (Parents twins) (Pure.pure none) (Pure.pure none) :=
    .pure ⟨none, rfl, rfl⟩
  have someParent (state : CompileState) (other : Tree) :
      Alike twins least state other (Parents twins)
        (some <$> Compile.expectIdentifier .noClassName)
        (some <$> Compile.expectIdentifier .noClassName) :=
    (Alike.expectIdentifier .noClassName).map fun _ _ _ _ ⟨⟨common, same⟩, _⟩ => by
      obtain ⟨rfl, rfl⟩ := same
      exact ⟨some common, rfl, rfl⟩
  refine .either (someParent _ _) (noParent _ _) ?_
  rintro _ _ _ _ _ ⟨parent, rfl, rfl⟩
  refine .behind fun _ _ isOpen _ => .ite (fun _ => .failing) fun _ => ?_
  refine .atPosition fun position scope _ _ reachable => .behind fun state tree _ _ => ?_
  refine .withTwin fun corresponds => .reading rfl rfl ?_
  have sizes := corresponds.classes_size
  have classes : tree.classes.map ClassDef.shape = state.tree.classes.map ClassDef.shape :=
    congrArg (·.classes) corresponds.shape
  let left : ClassDef := { name := named.1, span := named.2.left }
  let right : ClassDef := { name := named.1, span := named.2.right }
  have places : Along twins.Places ClassDef.span (state.tree.classes.push left)
      (tree.classes.push right) := corresponds.placed.classes.push sizes named.2.places
  refine (Alike.setClasses ?_ (congrArg (·.methodKeys) corresponds.shape) places).bind
    fun _ _ _ _ _ _ => .pure ?_
  · simp [classes, ClassDef.shape, left, right]
  · refine ⟨⟨_, parent, position, Nat.zero_le _, reachable.2⟩, rfl, ?_⟩
    rw [CompileState.tree_withTree, sizes]
    rfl

instance : Yields twins least scanClass scanClass (fun common : FoundClass twins => common.left)
    (fun common => common.right) where
  alike _ _ := .scanClass

instance : Matches twins least skipToBody skipToBody := by
  unfold skipToBody
  refine .repeats fun _ => .andThen fun found => ?_
  split <;> infer_instance

/-- The items that both compilations have found so far. -/
def Found (twins : Twins) (_ : CompileState) (outline other : Outline) : Prop :=
  ∃ found : FoundItems twins, outline = found.left ∧ other = found.right

/-- The first pass. -/
theorem Alike.scan : Alike twins least state other (Found twins) Compile.scan Compile.scan := by
  unfold Compile.scan
  refine .loop (H := Found twins) ⟨⟨[], [], nofun⟩, rfl, rfl⟩ ?_
  rintro between tree _ _ ⟨found, rfl, rfl⟩
  refine .behind fun _ _ isEnd _ => .ite (fun _ => .pure (.done ⟨found, rfl, rfl⟩)) fun _ => ?_
  refine .behind fun _ _ isClosed _ => .ite (fun _ => .failing) fun _ => ?_
  refine .atPosition fun position scope _ _ reachable => .behind fun _ _ modifiers _ => ?_
  refine .behind fun _ _ isClass _ => .ite (fun _ => ?_) fun _ => ?_
  · refine .yielding fun _ _ item _ => .pure (.again ⟨⟨found.classes ++ [item], found.functions,
      found.inside⟩, ?_, ?_⟩)
    · simp [FoundItems.left]
    · simp [FoundItems.right]
  · have starts : ∀ start ∈ found.functions ++ [position], Reachable twins 0 start := by
      rintro start member
      obtain member | member := List.mem_append.mp member
      · exact found.inside start member
      · exact List.mem_singleton.mp member ▸ ⟨Nat.zero_le _, reachable.2⟩
    refine .behind fun _ _ hasBody _ => .ite (fun _ => ?_) fun _ => ?_
    · exact .pure (.again ⟨⟨found.classes, found.functions ++ [position], starts⟩, rfl, rfl⟩)
    · exact .pure (.done ⟨⟨found.classes, found.functions ++ [position], starts⟩, rfl, rfl⟩)

/-! ## Parents -/

/-- The parent of a class is resolved by both compilations. -/
theorem Matches.resolveParents (items : List (FoundClass twins)) :
    Matches twins least (Compile.resolveParents (items.map FoundClass.left))
      (Compile.resolveParents (items.map FoundClass.right)) := by
  unfold Compile.resolveParents
  refine .andThenBy (.forEach items fun item _ => ?_) fun _ => .onTree fun tree other shape => ?_
  · obtain ⟨id, parent, body, inside⟩ := item
    cases parent with
    | none => exact .pure ()
    | some parent =>
        refine .andThen fun found => .andThenBy (.requireAt _ parent.2.toPlace _) fun ancestor => ?_
        exact .modifyClass (fun entry other same => by simp_all [ClassDef.shape])
          (fun _ => by rfl) (fun _ => by rfl) id
  · refine .forEach items fun item _ => ?_
    have circles :=
      Tree.same_of_shape shape
        (fun tree => inheritsItself tree item.right.id (tree.classes.size + 2)
          (tree.classDef item.right.id).parent)
        fun tree => by simp [ClassDef.shape]
    rw [circles]
    exact .branches (.failAt _ item.place) (.pure ())

/-! ## Signatures -/

instance : Matches twins least skipInitializer skipInitializer := by
  unfold skipInitializer
  refine .repeats fun depth => .andThen fun found => ?_
  split <;> infer_instance

instance (ty : Ty) : Matches twins 1 (parameterDefault ty) (parameterDefault ty) where
  alike _ _ := by
    unfold parameterDefault
    refine .behind fun _ _ isMissing _ => .ite (fun _ => .failing) fun _ => ?_
    refine .behind fun _ _ _ _ => ?_
    refine Alike.expression.issuing fun _ _ value _ issued => .behind fun _ _ _ leads => ?_
    refine .atExpr (leads.issued issued) fun place => .behind fun _ _ source _ => ?_
    refine .onTree fun tree twin shape => ?_
    rw [Tree.same_of_shape shape (·.isAssignable source ty) fun tree =>
      tree.isAssignable_shape source ty]
    refine .ite (fun _ => .failedThen place.places) fun _ => .behind fun _ _ constant _ => ?_
    refine .checking place.places fun converted _ => .requiring place.places fun literal _ => ?_
    exact (Alike.addExpr place.spans).weaken fun _ _ _ _ issues => issues.1

instance : Matches twins 1 parameters parameters := by
  unfold parameters
  refine .andThen fun isEmpty => .branches (.pure []) (.repeats fun params => ?_)
  refine .yielding fun start => .andThen fun base => .otherwise (.yielding fun named => ?_)
  refine .andThen fun ty => .otherwise (.andThen fun isDefault => ?_)
  exact .branches (.andThen fun value => inferInstance) (.otherwise inferInstance)

/-- The position of a body that is skipped. -/
theorem Alike.skipBody :
    Alike twins least state other
      (fun _ position twin => twin = position ∧ Reachable twins least position)
      Compile.skipBody Compile.skipBody := by
  unfold Compile.skipBody
  refine .behind fun _ _ isOpen _ => .ite (fun _ => .failing) fun _ => ?_
  exact .atPosition fun position _ _ _ reachable => .behind fun _ _ _ _ => .pure ⟨rfl, reachable⟩

/-- A function is added to both trees. -/
theorem Alike.addFunction (function : FunctionDef) (place : Stretch twins) :
    Alike twins least state other (fun _ _ _ => True)
      (Compile.setTree { state.tree with
        functions := state.tree.functions.push { function with span := place.left } })
      (Compile.setTree { other with
        functions := other.functions.push { function with span := place.right } }) :=
  .withTwin fun corresponds => by
    have shape := corresponds.shape
    simp only [Tree.shape, Tree.mk.injEq] at shape
    refine .setTree ?_ (Nat.le_refl _)
      { corresponds.placed with
        functions := corresponds.placed.functions.push corresponds.functions_size place.places }
    simp [Tree.shape, shape, FunctionDef.shape]

/-- A method key is interned in both trees. -/
theorem Alike.interning
    {post : CompileState → γ → δ → Prop}
    {next : Option MethodSlot → Compile γ}
    {after : Option MethodSlot → Compile δ}
    (key : String)
    (rest : ∀ between tree slot,
      Alike twins least between tree post (next slot) (after slot)) :
    Alike twins least state other post
      (do
        let tree ← tree
        Compile.setTree (tree.internMethodKey key).2
        let slot ← Pure.pure (some (tree.internMethodKey key).1)
        next slot)
      (do
        let tree ← tree
        Compile.setTree (tree.internMethodKey key).2
        let slot ← Pure.pure (some (tree.internMethodKey key).1)
        after slot) := by
  refine .withTwin fun corresponds => .reading rfl rfl ?_
  have interned := state.tree.internMethodKey_shape key
  rw [← corresponds.shape, Tree.internMethodKey_shape] at interned
  obtain ⟨slots, shapes⟩ := Prod.mk.inj interned
  obtain ⟨keys, isFirst⟩ := state.tree.internMethodKey_same key
  obtain ⟨otherKeys, isSecond⟩ := other.internMethodKey_same key
  rw [CompileState.tree_withTree, slots]
  refine (Alike.setTree shapes ?_ ?_).bind fun between tree _ _ _ _ => rest between tree _
  · rw [isFirst]
  · rw [isFirst, isSecond]
    exact { corresponds.placed with }

instance (modifiers : Modifiers) (result : Ty) (owner : Option ClassId) (name : String)
    (place : Stretch twins) :
    Matches twins 1 (declareSignature modifiers result owner name place.left)
      (declareSignature modifiers result owner name place.right) where
  alike _ _ := by
    unfold declareSignature
    refine .behind fun _ _ _ _ => .behind fun _ _ params _ => ?_
    refine .withTwin fun corresponds => .reading rfl rfl ?_
    have shape := corresponds.shape
    have key (place : Span) :
        FunctionDef.signatureKey ⟨name, owner, params, result, modifiers, none, [], place⟩ =
          FunctionDef.keyOf name (params.map (·.ty)) :=
      rfl
    have declared :=
      Tree.same_of_shape shape
        (fun tree => tree.functions.any fun function =>
          function.owner == owner &&
            function.signatureKey == FunctionDef.keyOf name (params.map (·.ty)))
        fun tree => tree.functions_any_shape owner _
    have sizes := Tree.same_of_shape shape (·.functions.size) fun tree => by simp [Tree.shape]
    simp only [key, CompileState.tree_withTree]
    rw [declared, sizes]
    refine .ite (fun _ => .failedThen place.places) fun _ => ?_
    refine (Alike.addFunction ⟨name, owner, params, result, modifiers, none, [], .none⟩ place).bind
      fun _ _ _ _ _ _ => ?_
    have adding (state : CompileState) (other : Tree) (owner : ClassId) (slot : Option MethodSlot)
        (id : FuncId) :
        Alike twins 1 state other (fun _ value result => result = value)
          (do
            Compile.modifyClass owner fun entry =>
              { entry with
                methods := entry.methods ++ [⟨name, .user id, modifiers.visibility, slot⟩] }
            return id)
          (do
            Compile.modifyClass owner fun entry =>
              { entry with
                methods := entry.methods ++ [⟨name, .user id, modifiers.visibility, slot⟩] }
            return id) :=
      (Matches.andThenBy (.modifyClass (fun entry other same => by simp_all [ClassDef.shape])
        (fun _ => by rfl) (fun _ => by rfl) owner) fun _ => .pure id).alike _ _
    cases owner with
    | none => exact .pure rfl
    | some owner =>
        dsimp only
        rw [Tree.className_of_shape shape]
        refine .ite (fun _ => adding _ _ _ none _) fun _ => .interning _ fun _ _ slot => ?_
        exact adding _ _ _ slot _

/-! ## Fields and members -/

/-- Fields whose initializers both compilations can return to. -/
def Waiting (twins : Twins) (initials : List PendingInitial) : Prop :=
  ∀ initial ∈ initials, Reachable twins 1 initial.position

/-- The same fields wait for their initializers in both compilations. -/
def Waits (twins : Twins) (_ : CompileState) (initials other : List PendingInitial) : Prop :=
  other = initials ∧ Waiting twins initials

/-- A name with the fields that wait for their initializers so far. -/
def Declares
    (twins : Twins) (_ : CompileState) (value other : (String × Span) × List PendingInitial) :
    Prop :=
  ∃ (named : String × Stretch twins) (initials : List PendingInitial),
    value = ((named.1, named.2.left), initials) ∧ other = ((named.1, named.2.right), initials) ∧
      Waiting twins initials

/-- Behind a field follows the next one or the end of the declaration. -/
theorem Alike.nextField
    {initials : List PendingInitial}
    (waiting : Waiting twins initials) :
    Alike twins 1 state other (Turn.Pairs (Declares twins) (Waits twins))
      (do
        if ← eat .comma then return .again (← Compile.expectName .noVariable, initials)
        else return .done initials)
      (do
        if ← eat .comma then return .again (← Compile.expectName .noVariable, initials)
        else return .done initials) := by
  refine .behind fun _ _ isComma _ => .ite (fun _ => ?_) fun _ => .pure (.done ⟨rfl, waiting⟩)
  exact .yielding fun _ _ named _ => .pure (.again ⟨named, initials, rfl, rfl, waiting⟩)

/-- Fields of one type, of which the first name is consumed. -/
theorem Alike.declareFields
    (owner : ClassId)
    (modifiers : Modifiers)
    (base : Ty)
    (first : String × Stretch twins) :
    Alike twins 1 state other (Waits twins)
      (Compile.declareFields owner modifiers base (first.1, first.2.left))
      (Compile.declareFields owner modifiers base (first.1, first.2.right)) := by
  unfold Compile.declareFields
  refine .ite (fun _ => .failedThen first.2.places) fun _ => ?_
  refine .bind (M := Waits twins) (.loop (H := Declares twins) ⟨first, [], rfl, rfl, nofun⟩ ?_) ?_
  · rintro _ _ _ _ ⟨named, initials, rfl, rfl, waiting⟩
    refine .behind fun _ _ declared _ => .onTree fun tree twin shape => ?_
    have fields :=
      Tree.same_of_shape shape
        (fun tree => ((tree.classDef owner).fields ++ (tree.classDef owner).statics).any
          fun field => field.name == named.1)
        fun tree => tree.fields_any_shape owner named.1
    have counts :=
      Tree.same_of_shape shape (fun tree => fieldCount (tree.classDef owner) modifiers.isStatic)
        fun tree => by simp
    dsimp only
    rw [fields, counts]
    refine .ite (fun _ => .failedThen named.2.places) fun _ => ?_
    refine (Matches.modifyClass ?_ ?_ ?_ owner).alike _ _ |>.bind fun _ _ _ _ _ _ => ?_
    · intro entry other same
      split <;> simp_all [ClassDef.shape, FieldDef.shape]
    · intro entry
      split <;> rfl
    · intro entry
      split <;> rfl
    refine .behind fun _ _ isAssigned _ => .ite (fun _ => ?_) fun _ => ?_
    · refine .atPosition fun position _ _ _ reachable => .behind fun _ _ _ _ => ?_
      refine .nextField (List.forall_mem_append.mpr ⟨waiting, ?_⟩)
      simpa using reachable
    · exact .nextField waiting
  · rintro _ _ _ initials _ ⟨rfl, waiting⟩
    exact .behind fun _ _ _ _ => .pure ⟨rfl, waiting⟩

/-- What waits for the third pass starts at positions that can be returned to. -/
structure Pending.Returnable (twins : Twins) (pending : Pending) : Prop where
  bodies : ∀ body ∈ pending.bodies, Reachable twins 1 body.body
  initials : Waiting twins pending.initials

/-- The same waits for the third pass of both compilations. -/
def Pends (twins : Twins) (_ : CompileState) (pending other : Pending) : Prop :=
  other = pending ∧ pending.Returnable twins

/-- The members of a class. -/
theorem Alike.declareMembers
    {pending : Pending}
    (item : FoundClass twins)
    (returnable : pending.Returnable twins) :
    Alike twins 0 state other (Pends twins) (Compile.declareMembers item.left pending)
      (Compile.declareMembers item.right pending) := by
  unfold Compile.declareMembers
  dsimp only [FoundClass.left, FoundClass.right]
  refine .onTree fun tree twin shape => (Alike.moveTo item.inside).bind fun _ _ _ _ _ _ => ?_
  rw [Tree.className_of_shape shape]
  -- Behind the opening brace there is a token at which a span can end.
  refine Alike.advance.bind fun _ _ _ _ _ consumed => .raise (Nat.zero_le 1) consumed ?_
  refine .loop (H := Pends twins) ⟨rfl, returnable⟩ ?_
  rintro _ _ pending _ ⟨rfl, returnable⟩
  refine .behind fun _ _ isClosed _ => .ite (fun _ => .pure (.done ⟨rfl, returnable⟩)) fun _ => ?_
  refine .behind fun _ _ isEnd _ => .ite (fun _ => .failing) fun _ => ?_
  refine .behind fun _ _ modifiers _ => .behind fun _ _ text _ => .behind fun _ _ next _ => ?_
  refine .either (M := fun _ ty twin => twin = ty) (.pure rfl) .matching ?_
  rintro _ _ _ ty _ rfl
  refine .yielding fun _ _ named _ => ?_
  dsimp only
  refine .behind fun _ _ isCall _ => .ite (fun _ => ?_) fun _ => ?_
  · refine .behind fun _ _ function _ => Alike.skipBody.bind ?_
    rintro _ _ body _ _ ⟨rfl, reachable⟩
    refine .pure (.again ⟨rfl, List.forall_mem_append.mpr ⟨returnable.bodies, ?_⟩,
      returnable.initials⟩)
    simpa using reachable
  · refine (Alike.declareFields item.id modifiers ty named).bind ?_
    rintro _ _ initials _ _ ⟨rfl, waiting⟩
    exact .pure (.again ⟨rfl, returnable.bodies,
      List.forall_mem_append.mpr ⟨returnable.initials, waiting⟩⟩)

/-! ## Functions -/

/-- The same function waits for its body in both compilations. -/
def PendsBody (twins : Twins) (_ : CompileState) (body other : PendingBody) : Prop :=
  other = body ∧ Reachable twins 1 body.body

/-- The parameters of a function and its body, which is skipped. -/
theorem Alike.behindName
    (modifiers : Modifiers)
    (result : Ty)
    (owner : Option ClassId)
    (name : String)
    (place : Stretch twins) :
    Alike twins 1 state other (PendsBody twins)
      (do
        if !(← at' .openPar) then fail .openPar
        let function ← declareSignature modifiers result owner name place.left
        return ⟨function, ← Compile.skipBody⟩)
      (do
        if !(← at' .openPar) then fail .openPar
        let function ← declareSignature modifiers result owner name place.right
        return ⟨function, ← Compile.skipBody⟩) := by
  refine .behind fun _ _ isCall _ => .ite (fun _ => .failing) fun _ => ?_
  refine .behind fun _ _ function _ => Alike.skipBody.bind ?_
  rintro _ _ body _ _ ⟨rfl, reachable⟩
  exact .pure ⟨rfl, reachable⟩

/-- The function that starts at a position. -/
theorem Alike.declareFunction
    {start : Nat}
    (inside : Reachable twins 0 start) :
    Alike twins 0 state other (PendsBody twins) (Compile.declareFunction start)
      (Compile.declareFunction start) := by
  unfold Compile.declareFunction
  refine (Alike.moveTo inside).bind fun _ _ _ _ _ _ => .behind fun _ _ modifiers _ => ?_
  refine .behind fun _ _ result _ => (Alike.expectName _).bind ?_
  rintro _ _ _ _ _ ⟨⟨first, rfl, rfl⟩, consumed⟩
  -- A function may start at the first token, but its name has been consumed.
  refine .raise (Nat.zero_le 1) consumed (.behind fun _ _ isMember _ => ?_)
  refine .ite (fun _ => ?_) fun _ => ?_
  · refine .onTree fun tree twin shape => ?_
    have owners :=
      Tree.same_of_shape shape
        (fun tree => (tree.classNamed? first.1).filter fun id => !(tree.classDef id).isHost)
        fun tree => by simp [ClassDef.shape]
    rw [owners]
    refine .requiring first.2.places fun owner _ => .yielding fun _ _ named _ => ?_
    exact .behindName modifiers result (some owner) named.1 named.2
  · exact .behindName modifiers result none first.1 first.2

end Compile

end BotScript
