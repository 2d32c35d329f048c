import BotScript.Proofs.BuildingDeclarations

namespace BotScript

/-!
# Programs that are built

The dispatch tables name methods of the classes, the initializers of fields stand
on their own, and every body is compiled over the variables of its function.  So
the tree of a whole program is sound, all its functions have bodies, and all code
names members that it may name.
-/

/-! ## Dispatch tables -/

/-- An entry of a dispatch table after an insertion is the new one or an old one. -/
theorem Compile.insertSlot_mem
    {slot : MethodSlot}
    {function : FuncId}
    {table : List (MethodSlot × FuncId)}
    {row : MethodSlot × FuncId}
    (isRow : row ∈ insertSlot slot function table) :
    row = (slot, function) ∨ row ∈ table := by
  induction table with
  | nil => exact .inl (List.mem_singleton.mp isRow)
  | cons entry others inductionHypothesis =>
      unfold insertSlot at isRow
      split at isRow
      · exact (List.mem_cons.mp isRow).imp id (List.mem_cons_of_mem entry)
      · split at isRow
        · exact List.mem_cons.mp isRow
        · obtain rfl | isOther := List.mem_cons.mp isRow
          · exact .inr List.mem_cons_self
          · exact (inductionHypothesis isOther).imp id (List.mem_cons_of_mem entry)

namespace Tree

variable {context : CompileContext} {known : NativeId → Prop} {own : Nat} {tree : Tree}

/-- A row of a dispatch table names a method key and a function of the tree. -/
def RowSound (tree : Tree) (row : MethodSlot × FuncId) : Prop :=
  row.1.index < tree.methodKeys.size ∧ row.2.index < tree.functions.size

/-- The methods of a class of a sound tree add sound rows. -/
theorem Sound.addMethods
    (sound : tree.Sound context known own)
    {table : List (MethodSlot × FuncId)}
    (rows : ∀ row ∈ table, tree.RowSound row)
    (id : ClassId) :
    ∀ row ∈ Compile.addMethods table (tree.classDef id), tree.RowSound row := by
  have methods := sound.methods id
  unfold Compile.addMethods
  generalize (tree.classDef id).methods = entries at methods
  induction entries generalizing table with
  | nil => exact rows
  | cons method entries inductionHypothesis =>
      obtain ⟨⟨within, slots⟩, others⟩ := List.forall_mem_cons.mp methods
      refine inductionHypothesis ?_ others
      dsimp only
      split
      · next function slot isUser isSlot =>
        intro row isRow
        obtain rfl | old := Compile.insertSlot_mem isRow
        · rw [isUser] at within
          exact ⟨slots slot isSlot, within⟩
        · exact rows row old
      · exact rows

/-- The dispatch tables of a sound tree are sound. -/
theorem Sound.dispatchTable
    (sound : tree.Sound context known own)
    (id : ClassId) :
    ∀ row ∈ Compile.dispatchTable tree id, tree.RowSound row := by
  unfold Compile.dispatchTable
  suffices folds : ∀ (chain : List ClassId) (table : List (MethodSlot × FuncId)),
      (∀ row ∈ table, tree.RowSound row) →
      ∀ row ∈ chain.foldl (fun table owner => Compile.addMethods table (tree.classDef owner)) table,
        tree.RowSound row from folds _ [] nofun
  intro chain
  induction chain with
  | nil => exact fun _ rows => rows
  | cons owner chain inductionHypothesis =>
      exact fun table rows => inductionHypothesis _ (sound.addMethods rows owner)

/-- The tree grows when its dispatch tables are filled in. -/
theorem Grows.withDispatchTables (tree : Tree) : tree.Grows (Compile.withDispatchTables tree) where
  __ := Grows.refl tree
  classes index entry found := by
    rw [Compile.withDispatchTables, Array.getElem?_mapIdx, found]
    exact ⟨_, rfl, ⟨rfl, rfl, Nat.le_refl _, List.prefix_rfl⟩⟩

/-- A sound tree stays sound when its dispatch tables are filled in. -/
theorem Sound.withDispatchTables
    (sound : tree.Sound context known own) :
    Sound context known own (Compile.withDispatchTables tree) := by
  have grows := Grows.withDispatchTables tree
  refine sound.grownInside grows (by simp [Compile.withDispatchTables]) (fun _ _ => .inl)
    (fun _ _ => .inl) (fun _ => .inl) fun entry isEntry => .inr ?_
  obtain ⟨index, found⟩ := Array.mem_iff_getElem?.mp isEntry
  rw [Compile.withDispatchTables, Array.getElem?_mapIdx] at found
  obtain ⟨old, isOld, rfl⟩ := Option.map_eq_some_iff.mp found
  have oldSound := (sound.classes old (Array.mem_of_getElem? isOld)).mono (sound.keeps grows)
  exact ⟨oldSound.names, oldSound.parent, oldSound.initials, oldSound.methods,
    sound.dispatchTable _⟩

/-- Nothing is compiled when the dispatch tables are filled in. -/
theorem Blank.withDispatchTables
    (blank : tree.Blank) :
    (Compile.withDispatchTables tree).Blank where
  bodies := blank.bodies
  classes entry isEntry := by
    obtain ⟨index, found⟩ := Array.mem_iff_getElem?.mp isEntry
    rw [Compile.withDispatchTables, Array.getElem?_mapIdx] at found
    obtain ⟨old, isOld, rfl⟩ := Option.map_eq_some_iff.mp found
    exact blank.classes old (Array.mem_of_getElem? isOld)

/-- Nothing is compiled or declared for classes that are found before there are functions. -/
theorem Bare.declaring
    (bare : tree.Bare)
    (sound : tree.Sound context known own) :
    tree.Declaring where
  bodies := by simp [bare.functions]
  classes entry isEntry field isField := by
    by_contra hasInitial
    obtain ⟨id, isInitial⟩ := Option.ne_none_iff_exists'.mp hasInitial
    have inside := ((sound.classes entry isEntry).initials field isField id isInitial).inside
    rw [bare.exprs] at inside
    cases inside
  members _ := by
    have noFunction (id : FuncId) : tree.function? id = none := by
      rw [Tree.function?, bare.functions]
      rfl
    refine ⟨fun owner method isMethod id isUser => ?_, fun id function found => ?_,
      fun id function found => ?_, ?_⟩
    · have inside := (sound.methods owner method isMethod).1
      rw [isUser] at inside
      change id.index < tree.functions.size at inside
      rw [bare.functions] at inside
      cases inside
    · cases (noFunction id).symm.trans found
    · cases (noFunction id).symm.trans found
    · rw [bare.methodKeys]
      exact List.nodup_nil

end Tree

/-! ## Third pass -/

namespace ClassDef

variable {entry : ClassDef} {isStatic : Bool} {index : Nat} {value : ExprId}

/-- A class in which a field has its initializer. -/
def withInitial (entry : ClassDef) (isStatic : Bool) (index : Nat) (value : ExprId) : ClassDef :=
  let update (fields : List FieldDef) : List FieldDef :=
    fields.modify index fun field => { field with initial := some value }
  if isStatic then { entry with statics := update entry.statics }
  else { entry with fields := update entry.fields }

/-- A class with the initializer of a field looks the same to other classes. -/
theorem becomes_withInitial : entry.Becomes (entry.withInitial isStatic index value) := by
  unfold withInitial
  split
  · exact ⟨rfl, rfl, Nat.le_refl _, List.prefix_rfl⟩
  · exact ⟨rfl, rfl, by simp, List.prefix_rfl⟩

/-- A class with the initializer of a field declares the same members. -/
theorem settled_withInitial : entry.Settled (entry.withInitial isStatic index value) := by
  have declares (fields : List FieldDef) :
      (fields.modify index fun field => { field with initial := some value }).map
          FieldDef.declared =
        fields.map FieldDef.declared := by
    refine List.ext_getElem? fun position => ?_
    rw [List.getElem?_map, List.getElem?_modify, List.getElem?_map]
    cases fields[position]? with
    | none => rfl
    | some field => split <;> rfl
  unfold withInitial
  split
  · exact ⟨rfl, declares _, rfl, rfl, rfl⟩
  · exact ⟨declares _, rfl, rfl, rfl, rfl⟩

/-- The initializers of a class are those it had and the one that it has got. -/
theorem initial_withInitial
    {field : FieldDef}
    {id : ExprId}
    (isField : field ∈ (entry.withInitial isStatic index value).fields ++
      (entry.withInitial isStatic index value).statics)
    (isInitial : id ∈ field.initial) :
    (∃ old ∈ entry.fields ++ entry.statics, id ∈ old.initial) ∨ id = value := by
  have updated {fields : List FieldDef}
      (isField : field ∈ fields.modify index fun field => { field with initial := some value }) :
      (∃ old ∈ fields, id ∈ old.initial) ∨ id = value := by
    obtain ⟨position, found⟩ := List.mem_iff_getElem?.mp isField
    rw [List.getElem?_modify] at found
    obtain ⟨old, isOld, rfl⟩ := Option.map_eq_some_iff.mp found
    split at isInitial
    · exact .inr (Option.some.inj isInitial).symm
    · exact .inl ⟨old, List.mem_of_getElem? isOld, isInitial⟩
  unfold withInitial at isField
  split at isField
  · obtain own | isStatic := List.mem_append.mp isField
    · exact .inl ⟨field, List.mem_append_left _ own, isInitial⟩
    · refine (updated isStatic).imp ?_ fun isNew => isNew
      rintro ⟨old, isOld, isIts⟩
      exact ⟨old, List.mem_append_right _ isOld, isIts⟩
  · obtain own | isStatic := List.mem_append.mp isField
    · refine (updated own).imp ?_ fun isNew => isNew
      rintro ⟨old, isOld, isIts⟩
      exact ⟨old, List.mem_append_left _ isOld, isIts⟩
    · exact .inl ⟨field, List.mem_append_right _ isStatic, isInitial⟩

end ClassDef

/-- A class stays sound when a field gets an initializer that stands alone. -/
theorem Tree.ClassSound.withInitial
    {context : CompileContext}
    {known : NativeId → Prop}
    {tree : Tree}
    {entry : ClassDef}
    {value : ExprId}
    (sound : tree.ClassSound context known entry)
    (stands : tree.StandsAlone value)
    (isStatic : Bool)
    (index : Nat) :
    tree.ClassSound context known (entry.withInitial isStatic index value) where
  names once := by
    rw [ClassDef.settled_withInitial.names]
    exact sound.names once
  parent := by
    rw [ClassDef.becomes_withInitial.parent]
    exact sound.parent
  initials field isField id isInitial := by
    obtain ⟨old, isOld, isIts⟩ | rfl := ClassDef.initial_withInitial isField isInitial
    · exact sound.initials old isOld id isIts
    · exact stands
  methods := by
    unfold ClassDef.withInitial
    split <;> exact sound.methods
  dispatch := by
    unfold ClassDef.withInitial
    split <;> exact sound.dispatch

/--
What waits is there, no further members are declared, and what has been compiled respects the
visibility of members.
-/
structure Compile.Pending.Guarded
    (context : CompileContext) (declared tree : Tree) (pending : Compile.Pending) :
    Prop where
  sound : pending.Sound context tree
  settles : declared.Settles tree
  guards : tree.Finally fun final => final.Guards tree

namespace Compile.Passes

variable {context : CompileContext} {known : NativeId → Prop} {own : Nat} {state : CompileState}
  {declared : Tree}

/-- The initializer of a field. -/
theorem compileInitial
    {pending : Pending}
    {initial : PendingInitial}
    (guarded : pending.Guarded context declared state.tree)
    (isInitial : initial ∈ pending.initials) :
    Passes context known own state (fun after _ => pending.Guarded context declared after.tree)
      (Compile.compileInitial initial) := by
  obtain ⟨inside, position⟩ := guarded.sound.initials initial isInitial
  unfold Compile.compileInitial
  refine reading rfl ?_
  dsimp only
  refine moving position (scoping ?_ ?_)
  · rintro _ ⟨⟩
    exact inside
  refine building (Builds.initializer (fun _ => .expression) _) fun after value onward has => ?_
  have stands : after.tree.StandsAlone value := by
    refine ⟨has.1, fun fits slot reads => ?_⟩
    have none := has.2.1 fits slot reads
    rw [Scope.locals, onward.scope.outside rfl] at none
    cases none
  refine scoping (fun owner isOwner => absurd isOwner (Option.not_mem_none owner))
    (behind fun _ _ => ?_)
  split
  · exact ofBuilds .failedThen
  rw [← bind_pure (modifyClass _ _)]
  have sound := guarded.sound.mono onward.tree.grows (congrArg Array.size onward.functions)
  have becomes (entry : ClassDef) :
      entry.Becomes (entry.withInitial initial.isStatic initial.index value) :=
    ClassDef.becomes_withInitial
  refine changing becomes (fun entry _ sound => sound.withInitial stands _ _)
    fun tree isTree => ?_
  have changes : after.tree.Settles tree := by
    rw [isTree]
    exact .modifyClass _ _ becomes fun _ => ClassDef.settled_withInitial
  refine pure ⟨?_, guarded.settles.trans (onward.settles.trans changes), fun final whole settles => ?_⟩
  · rw [isTree]
    exact sound.mono (.modifyClass _ _ becomes) rfl
  · have later := changes.trans settles
    have access := has.2.2 final whole later
    rw [onward.scope.owner] at access
    have guards := (guarded.guards final whole (onward.settles.trans later)).gains
      onward.functions onward.classes
    rw [isTree]
    refine guards.modifyClass initial.owner fun entry field isField id isInitial => ?_
    refine (ClassDef.initial_withInitial isField isInitial).imp (fun old => old) ?_
    rintro rfl
    exact access

/-- The parameters of a function become its first variables. -/
theorem declareParams
    {params : List Param}
    {place : Span} :
    Passes context known own state
      (fun after _ => after.tree = state.tree ∧ after.scope.owner = state.scope.owner ∧
        after.scope.locals = state.scope.locals ++ params.map Param.toLocal)
      (params.forM fun param => do
        let _ ← declareVariable param.name param.ty place) := by
  refine forM (H := fun after done => after.tree = state.tree ∧
    after.scope.owner = state.scope.owner ∧
      after.scope.locals = state.scope.locals ++ done.map Param.toLocal) ⟨rfl, rfl, by simp⟩ ?_
  rintro between done param - ⟨sameTree, sameOwner, locals⟩
  refine building (Builds.declareVariable _ _ _) ?_
  rintro after slot - ⟨same, declared⟩
  refine pure ⟨same.trans sameTree, declared.owner.trans sameOwner, ?_⟩
  rw [declared.locals, locals, List.map_append, List.append_assoc]
  rfl

/-- The body of a function. -/
theorem compileBody
    {pending : Pending}
    {body : PendingBody}
    (guarded : pending.Guarded context declared state.tree)
    (isBody : body ∈ pending.bodies) :
    Passes context known own state
      (fun after _ => pending.Guarded context declared after.tree ∧
        (after.tree.function body.function).body.isSome)
      (Compile.compileBody body) := by
  obtain ⟨inside, position⟩ := guarded.sound.bodies body isBody
  unfold Compile.compileBody
  refine withReady fun ready => reading rfl ?_
  have functionSound := ready.tree.functions _ (Tree.function_mem inside)
  dsimp only
  refine scoping functionSound.owner (bind declareParams ?_)
  rintro ⟨_, tree, scope⟩ _ - ⟨rfl, sameOwner, params⟩
  refine moving position (building Builds.functionBlock fun after block onward has => ?_)
  refine reading rfl (scoping nofun (reading rfl ?_))
  have isOwner : after.scope.owner = (state.tree.function body.function).owner :=
    onward.scope.owner.trans sameOwner
  have isOld {old : FunctionDef}
      (found : after.tree.functions[body.function.index]? = some old) :
      state.tree.function body.function = old := by
    rw [onward.functions] at found
    rw [Tree.function, Tree.function?, found]
    rfl
  have finished : Passes context known own
      ⟨after.position, after.tree, after.scope.leaveFunction⟩
      (fun after _ => pending.Guarded context declared after.tree ∧
        (after.tree.function body.function).body.isSome)
      (setTree { after.tree with
        functions := after.tree.functions.modify body.function.index fun function =>
          { function with body := some block, locals := after.scope.locals } }) := by
    rw [← bind_pure (setTree _)]
    have becomes (function : FunctionDef) : function.Becomes
        { function with body := some block, locals := after.scope.locals } :=
      ⟨rfl, rfl, rfl, rfl, fun _ => rfl⟩
    have grows := Tree.Grows.modifyFunction after.tree body.function.index becomes
    have changes : after.tree.Settles _ :=
      (Tree.Gains.ofClasses (by rfl) (by rfl)).settles grows (by simp)
    refine growing (fun ready => ⟨ready.tree.modifyFunction _ becomes fun old found => ?_, grows⟩)
      (pure ⟨⟨?_, guarded.settles.trans (onward.settles.trans changes),
        fun final whole settles => ?_⟩, ?_⟩)
    · have oldSound := ready.tree.functions old (Array.mem_of_getElem? found)
      refine ⟨oldSound.owner, oldSound.params, oldSound.defaults, oldSound.short, ?_⟩
      rintro _ ⟨⟩
      refine ⟨has.1, ?_, has.2.1⟩
      rw [← isOld found, ← List.nil_append (List.map _ _)]
      exact params ▸ onward.scope.locals
    · exact guarded.sound.mono (onward.tree.grows.trans grows) (by simp [onward.functions])
    · have later := changes.trans settles
      have guards := (guarded.guards final whole (onward.settles.trans later)).gains
        onward.functions onward.classes
      refine guards.modifyFunction _ (fun _ => rfl) fun old found => ?_
      rintro _ ⟨⟩
      rw [← isOld found, ← isOwner]
      exact has.2.2 final whole later
    · simp [Tree.function, Tree.function?, onward.functions, inside, Array.getElem_modify_self]
  split
  · exact ofBuilds .failedAtThen
  · exact finished

end Compile.Passes

/-! ## Whole programs -/

/--
The tree of a program and the one in which its members are declared, of which it has kept the
dispatch tables.
-/
structure Tree.DeclaredBy (tree declared : Tree) : Prop where
  members : declared.Fits → declared.Members
  parents : declared.ParentsInside
  settles : (Compile.withDispatchTables declared).Settles tree

namespace Compile.Passes

variable {context : CompileContext} {known : NativeId → Prop} {own : Nat} {state : CompileState}

/-- The members of all classes. -/
theorem declareClasses
    {items : List ClassItem}
    {pending : Pending}
    (waiting : Waiting context state pending)
    (classes : ∀ item ∈ items, item.id.index < state.tree.classes.size)
    (bodies : ∀ item ∈ items, item.body ≤ context.tokens.size - 1) :
    Passes context known own state (Waiting context)
      (items.foldlM (fun pending item => Compile.declareMembers item pending) pending) := by
  refine weaken (foldlM (H := fun between pending => Waiting context between pending ∧
    state.tree.classes.size ≤ between.tree.classes.size) ⟨waiting, Nat.le_refl _⟩ ?_)
    fun _ _ _ meets => meets.1
  rintro between item pending isItem ⟨waiting, more⟩
  refine weaken (declareMembers waiting (Nat.lt_of_lt_of_le (classes item isItem) more)
    (bodies item isItem)) fun after _ keeps waiting => ?_
  exact ⟨waiting, Nat.le_trans more keeps.grows.classes_size⟩

/-- The functions outside the classes. -/
theorem declareFunctions
    {starts : List Nat}
    {pending : Pending}
    (waiting : Waiting context state pending)
    (inside : ∀ start ∈ starts, start ≤ context.tokens.size - 1) :
    Passes context known own state
      (fun after bodies => Waiting context after { pending with bodies := pending.bodies ++ bodies })
      (starts.mapM Compile.declareFunction) := by
  refine mapM (H := fun after bodies =>
    Waiting context after { pending with bodies := pending.bodies ++ bodies })
    (by simpa using waiting) fun between start bodies isStart waiting => ?_
  refine weaken (declareFunction waiting (inside start isStart)) fun after body _ waiting => ?_
  rwa [List.append_assoc] at waiting

/-- The initializers of all fields. -/
theorem compileInitials
    {pending : Pending}
    (guarded : pending.Guarded context declared state.tree) :
    Passes context known own state (fun after _ => pending.Guarded context declared after.tree)
      (pending.initials.forM Compile.compileInitial) :=
  forM (H := fun after _ => pending.Guarded context declared after.tree) guarded
    fun _ _ _ isInitial guarded => compileInitial guarded isInitial

/-- The bodies of all functions. -/
theorem compileBodies
    {pending : Pending}
    (guarded : pending.Guarded context declared state.tree) :
    Passes context known own state
      (fun after _ => pending.Guarded context declared after.tree ∧
        ∀ body ∈ pending.bodies, (after.tree.function body.function).body.isSome)
      (pending.bodies.forM Compile.compileBody) := by
  refine weaken (forM (H := fun after done => pending.Guarded context declared after.tree ∧
    ∀ body ∈ done, body ∈ pending.bodies ∧ (after.tree.function body.function).body.isSome)
    ⟨guarded, nofun⟩ ?_) fun _ _ _ meets => ⟨meets.1, fun body isBody => (meets.2 body isBody).2⟩
  rintro between done body isBody ⟨guarded, finished⟩
  refine weaken (compileBody guarded isBody) fun after _ keeps has => ⟨has.1, ?_⟩
  refine List.forall_mem_append.mpr ⟨fun other isDone => ?_,
    List.forall_mem_singleton.mpr ⟨isBody, has.2⟩⟩
  obtain ⟨isOther, hasBody⟩ := finished other isDone
  exact ⟨isOther, (keeps.grows.function (guarded.sound.bodies other isOther).1).body hasBody⟩

/-- The second pass behind the parents, and the third one. -/
theorem declarations
    {outline : Outline}
    (bare : state.tree.Bare)
    (scopeless : state.scope = {})
    (classes : ∀ item ∈ outline.classes, item.id.index < state.tree.classes.size)
    (bodies : ∀ item ∈ outline.classes, item.body ≤ context.tokens.size - 1)
    (functions : ∀ start ∈ outline.functions, start ≤ context.tokens.size - 1) :
    Passes context known own state
      (fun after tree => after.tree = tree ∧
        (∀ index < tree.functions.size, (tree.function (Id.ofIndex index)).body.isSome) ∧
          (∃ declared, tree.DeclaredBy declared) ∧ tree.Finally fun final => final.Guards tree)
      (do
        let pending ←
          outline.classes.foldlM (fun pending item => Compile.declareMembers item pending) {}
        let bodies ← outline.functions.mapM Compile.declareFunction
        setTree (Compile.withDispatchTables (← tree))
        pending.initials.forM Compile.compileInitial
        (pending.bodies ++ bodies).forM Compile.compileBody
        tree) := by
  refine withReady fun ready => ?_
  have starts : Waiting context state {} :=
    ⟨⟨congrArg Scope.function scopeless, congrArg Scope.owner scopeless⟩, bare.declaring ready.tree,
      by simp [bare.functions], nofun, nofun⟩
  refine bind (declareClasses starts classes bodies) fun first pending _ waiting => ?_
  refine bind (declareFunctions waiting functions) fun second bodies _ waiting => ?_
  have grows := Tree.Grows.withDispatchTables second.tree
  refine reading rfl (withReady fun ready => ?_)
  refine growing (fun ready => ⟨ready.tree.withDispatchTables, grows⟩) ?_
  let all : Pending := { pending with bodies := pending.bodies ++ bodies }
  have guarded :
      all.Guarded context (withDispatchTables second.tree) (withDispatchTables second.tree) :=
    ⟨waiting.sound.mono grows rfl, .refl _,
      fun _ _ _ => waiting.declaring.toBlank.withDispatchTables.guards⟩
  refine bind
    (M := fun after _ => all.Guarded context (withDispatchTables second.tree) after.tree)
    (compileInitials guarded) ?_
  intro third _ _ guarded
  refine bind (M := fun after _ =>
    all.Guarded context (withDispatchTables second.tree) after.tree ∧
    ∀ body ∈ all.bodies, (after.tree.function body.function).body.isSome)
    (compileBodies guarded) ?_
  refine fun last _ _ finished => reading rfl (pure ⟨rfl, fun index inside => ?_,
    ⟨second.tree, waiting.declaring.members, ready.tree.parents, finished.1.settles⟩,
    finished.1.guards⟩)
  obtain ⟨body, isBody, isIts⟩ := finished.1.sound.covers index inside
  exact isIts ▸ finished.2 body isBody

end Compile.Passes

/-- What holds of the tree of a program. -/
structure Tree.Built (context : CompileContext) (known : NativeId → Prop) (tree : Tree) : Prop where
  sound : ∃ own, tree.Sound context known own
  bodies : tree.Fits → ∀ function ∈ tree.functions, function.body.isSome
  rooted : tree.Fits → ∀ id, tree.Rooted id
  declared : ∃ declared, tree.DeclaredBy declared
  guards : tree.Whole → tree.Guards tree

/-- All classes are rooted if those of the program itself are. -/
theorem Tree.Sound.rooted
    {context : CompileContext}
    {known : NativeId → Prop}
    {own : Nat}
    {tree : Tree}
    (sound : tree.Sound context known own)
    (rooted : ∀ id : ClassId, id.index < own → tree.Rooted id)
    (id : ClassId) :
    tree.Rooted id := by
  induction index : id.index using Nat.strong_induction_on generalizing id with
  | _ index inductionHypothesis =>
  subst index
  by_cases isOwn : id.index < own
  · exact rooted id isOwn
  · cases isParent : (tree.classDef id).parent with
    | none => exact .top isParent
    | some parent =>
      cases found : tree.classes[id.index]? with
      | none =>
        rw [Tree.classDef, Tree.class?, found] at isParent
        cases isParent
      | some entry =>
        rw [Tree.classDef, Tree.class?, found] at isParent
        have earlier := sound.imported _ entry found (Nat.le_of_not_lt isOwn) parent isParent
        refine .under ?_ (inductionHypothesis _ earlier parent rfl)
        rw [Tree.classDef, Tree.class?, found]
        exact isParent

/-- An empty tree is sound. -/
theorem Tree.Sound.empty
    (context : CompileContext)
    (known : NativeId → Prop)
    (own : Nat) :
    Tree.Sound context known own {} where
  exprs _ _ found := absurd found (by simp)
  stmts _ _ found := absurd found (by simp)
  functions _ member := absurd member (Array.not_mem_empty _)
  classes _ member := absurd member (Array.not_mem_empty _)
  named _ _ inside := absurd inside (Nat.not_lt_zero _)
  imported _ _ found := absurd found (by simp)

/-- The tree of a program is built. -/
theorem Compile.program_built
    {context : CompileContext}
    {known : NativeId → Prop}
    {tree : Tree}
    {after : CompileState}
    (offers : context.registry.Offers known)
    (runs : program context {} = .ok (tree, after)) :
    tree.Built context known := by
  unfold program at runs
  obtain ⟨outline, first, scans, runs⟩ := bind_ok runs
  obtain ⟨_, second, resolves, runs⟩ := bind_ok runs
  -- The classes of the program come first, and their number is known behind the first pass.
  have starts : CompileState.Ready context known outline.classes.length {} :=
    ⟨offers, .empty _ _ _, nofun, Nat.zero_le _⟩
  obtain ⟨firstReady, -, found⟩ :=
    Passes.scan ⟨⟨rfl, rfl, rfl, rfl⟩, rfl, rfl, nofun, nofun⟩ starts _ _ scans
  have size : outline.classes.length = first.tree.classes.size := by
    simpa using congrArg List.length found.ids
  have own : ∀ item ∈ outline.classes, item.id.index < outline.classes.length := by
    intro item isItem
    have isId := List.mem_map_of_mem (f := (·.id)) isItem
    rw [found.ids] at isId
    obtain ⟨index, inside, isIndex⟩ := List.mem_map.mp isId
    rw [← isIndex, size]
    exact Nat.lt_of_le_of_lt (Id.index_ofIndex_le index) (List.mem_range.mp inside)
  obtain ⟨secondReady, bare, sameScope, more, rooted⟩ :=
    resolveParents_ok firstReady found.bare own resolves
  have inside (item : ClassItem) (isItem : item ∈ outline.classes) :
      item.id.index < second.tree.classes.size :=
    Nat.lt_of_lt_of_le (own item isItem) (size ▸ more)
  obtain ⟨lastReady, keeps, rfl, bodies, declared, guards⟩ :=
    Passes.declarations bare (sameScope.trans found.scope) inside found.bodies found.functions
      secondReady _ _ runs
  refine ⟨⟨_, lastReady.tree⟩, fun fits function isFunction => ?_, fun fits => ?_, declared,
    fun whole => guards _ whole (.refl _)⟩
  · obtain ⟨index, there, rfl⟩ := Array.mem_iff_getElem.mp isFunction
    have hasBody := bodies index there
    rw [Tree.function, Tree.function?, Id.index_ofIndex (Nat.lt_trans there fits.functions),
      Array.getElem?_eq_getElem there] at hasBody
    exact hasBody
  · refine lastReady.tree.rooted fun id isOwn => ?_
    have isId : id ∈ outline.classes.map (·.id) := by
      rw [found.ids]
      exact List.mem_map.mpr ⟨id.index, List.mem_range.mpr (size ▸ isOwn), id.ofIndex_index⟩
    obtain ⟨item, isItem, rfl⟩ := List.mem_map.mp isId
    exact (rooted item isItem).mono secondReady.tree.parents keeps.grows (inside item isItem)

/-- The tree of an accepted program is built. -/
theorem compile_built
    {registry : Registry}
    {tokens : TokenList}
    {known : NativeId → Prop}
    {tree : Tree}
    (offers : registry.Offers known)
    (accepted : compile registry tokens = .ok tree) :
    tree.Built ⟨tokens.tokens, registry⟩ known := by
  unfold compile at accepted
  cases runs : (Compile.program.run ⟨tokens.tokens, registry⟩).run {} with
  | error error =>
      rw [runs] at accepted
      cases accepted
  | ok result =>
      rw [runs] at accepted
      cases accepted
      exact Compile.program_built offers runs

/-! ## Statements -/

/-- The statements that functions and statements refer to are in the tree. -/
structure Tree.StatementsClosed (tree : Tree) : Prop where
  bodies :
    ∀ function ∈ tree.functions, ∀ id, function.body = some id → id.index < tree.stmts.size
  parts :
    ∀ statement ∈ tree.stmts, ∀ id ∈ statement.kind.childStmts, id.index < tree.stmts.size

/-- The statements of a compiled program are closed. -/
theorem compile_statementsClosed
    {registry : Registry}
    {tokens : TokenList}
    {tree : Tree}
    (accepted : compile registry tokens = .ok tree) :
    tree.StatementsClosed := by
  obtain ⟨own, sound⟩ := (compile_built registry.offers_all accepted).sound
  refine ⟨fun function isFunction body isBody => ?_, fun statement isStatement child isChild => ?_⟩
  · exact ((sound.functions function isFunction).body body isBody).inside
  · obtain ⟨index, found⟩ := Array.mem_iff_getElem?.mp isStatement
    obtain ⟨inside, -⟩ := Array.getElem?_eq_some_iff.mp found
    exact Nat.lt_trans ((sound.stmts index statement found).children child isChild) inside

end BotScript
