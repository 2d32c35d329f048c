import BotScript.Proofs.BuildingPasses
import BotScript.Proofs.DeclaredMembers
import Mathlib.Data.List.Induction

namespace BotScript

/-!
# Declarations that are built

The first pass finds the classes of the program, and the second one gives them
their parents before it declares anything else.  Every function that is declared
waits for its body, which the third pass compiles.
-/

/-- A tree with classes only. -/
structure Tree.Bare (tree : Tree) : Prop where
  exprs : tree.exprs = #[]
  stmts : tree.stmts = #[]
  functions : tree.functions = #[]
  methodKeys : tree.methodKeys = #[]

/-- The classes and functions that have been found so far. -/
structure Compile.Outline.Sound
    (context : CompileContext) (tree : Tree) (scope : Scope) (outline : Compile.Outline) :
    Prop where
  bare : tree.Bare
  scope : scope = {}
  ids : outline.classes.map (·.id) = (List.range tree.classes.size).map Id.ofIndex
  bodies : ∀ item ∈ outline.classes, item.body ≤ context.tokens.size - 1
  functions : ∀ start ∈ outline.functions, start ≤ context.tokens.size - 1

namespace Compile.Passes

variable {context : CompileContext} {known : NativeId → Prop} {own : Nat} {state : CompileState}

/-! ## First pass -/

/-- A class behind its keyword. -/
theorem scanClass
    {outline : Outline}
    (sound : outline.Sound context state.tree state.scope) :
    Passes context known own state
      (fun after item =>
        Outline.Sound context after.tree after.scope
          { outline with classes := outline.classes ++ [item] })
      Compile.scanClass := by
  unfold Compile.scanClass
  refine behind fun named position => reading rfl (reading rfl ?_)
  obtain ⟨name, place⟩ := named
  dsimp only
  split
  · exact ofBuilds .failedAtThen
  next isTaken =>
  have isNew : state.tree.classNamed? name = none := by
    by_contra isNamed
    exact isTaken (by simp [Option.isSome_iff_ne_none.mpr isNamed])
  have added (position : Nat) (parent : Option (String × Span)) :
      Passes context known own ⟨position, state.tree, state.scope⟩
        (fun after item =>
          Outline.Sound context after.tree after.scope
            { outline with classes := outline.classes ++ [item] })
        (do
          if !(← at' .openBlock) then fail .openBlock
          let body := (← get).position
          skipBlock
          let tree ← tree
          setTree { tree with classes := tree.classes.push { name, span := place } }
          return ⟨Id.ofIndex tree.classes.size, parent, body⟩) := by
    refine withReady fun ready => reading rfl ?_
    dsimp only
    split
    · exact ofBuilds .failedThen
    · refine reading rfl (behind fun _ _ => reading rfl (growing (fun ready => ?_) (pure ?_)))
      · exact ⟨ready.tree.pushClass _ ⟨fun _ => .nil, nofun, nofun, nofun, nofun⟩ isNew, .pushClass _ _⟩
      · exact
          { bare := { sound.bare with }
            scope := sound.scope
            ids := by simp [sound.ids, List.range_succ]
            bodies := List.forall_mem_append.mpr
              ⟨sound.bodies, List.forall_mem_singleton.mpr ready.inside⟩
            functions := sound.functions }
  refine behind fun isExtended position => ?_
  split
  · exact behind fun parent position => added position parent
  · exact reading rfl (added position none)

/-- The classes and functions of the program are found. -/
theorem scan
    (sound : Outline.Sound context state.tree state.scope {}) :
    Passes context known own state
      (fun after outline => outline.Sound context after.tree after.scope)
      Compile.scan := by
  unfold Compile.scan
  refine loop (H := fun state outline => outline.Sound context state.tree state.scope) sound ?_
  intro between outline _ sound
  refine withReady fun ready => reading rfl ?_
  split
  · exact pure sound
  · refine reading rfl ?_
    dsimp only
    split
    · exact ofBuilds .failedThen
    · refine reading rfl (behind fun _ position => behind fun isClass position => ?_)
      split
      · exact bind (scanClass sound) fun _ _ _ sound => pure sound
      · have found : Outline.Sound context between.tree between.scope
            { outline with functions := outline.functions ++ [between.position] } :=
          { bare := sound.bare
            scope := sound.scope
            ids := sound.ids
            bodies := sound.bodies
            functions := List.forall_mem_append.mpr
              ⟨sound.functions, List.forall_mem_singleton.mpr ready.inside⟩ }
        refine behind fun hasBody position => ?_
        split
        · exact pure found
        · exact pure found

end Compile.Passes

/-! ## Parents -/

section Parents

variable {context : CompileContext} {known : NativeId → Prop} {own : Nat}
  {tree before after : Tree}

/-- A class of the program is given a parent, while there are classes only. -/
theorem Tree.Sound.setParent
    {id parent : ClassId}
    (sound : tree.Sound context known own)
    (bare : tree.Bare)
    (isOwn : id.index < own)
    (inside : parent.index < tree.classes.size) :
    Tree.Sound context known own
      { tree with
        classes := tree.classes.modify id.index fun entry =>
          { entry with parent := some parent } } := by
  have members {entry : ClassDef} {parents : Option ClassId}
      (isSound : tree.ClassSound context known entry)
      (there : ∀ parent ∈ parents, parent.index < tree.classes.size) :
      Tree.ClassSound context known
        { tree with
          classes := tree.classes.modify id.index fun entry =>
            { entry with parent := some parent } }
        { entry with parent := parents } := by
    refine ⟨isSound.names, by simpa using there, fun field isField initial isInitial => ?_,
      isSound.methods, isSound.dispatch⟩
    have none := (isSound.initials field isField initial isInitial).inside
    rw [bare.exprs] at none
    cases none
  refine ⟨?_, ?_, ?_, fun entry isEntry => ?_, fun fits other there => ?_,
    fun index entry found isImported => ?_⟩
  · simp [bare.exprs]
  · simp [bare.stmts]
  · simp [bare.functions]
  · obtain ⟨position, found⟩ := Array.mem_iff_getElem?.mp isEntry
    rw [Array.getElem?_modify] at found
    split at found
    · obtain ⟨old, isOld, rfl⟩ := Option.map_eq_some_iff.mp found
      refine members (sound.classes old (Array.mem_of_getElem? isOld)) ?_
      rintro _ ⟨⟩
      exact inside
    · have old := sound.classes entry (Array.mem_of_getElem? found)
      exact members old old.parent
  · have there : other.index < tree.classes.size := by simpa using there
    have names (index : Nat) (entry : ClassDef) (found : tree.classes[index]? = some entry) :
        ∃ later,
          (tree.classes.modify id.index fun entry => { entry with parent := some parent })[index]?
              = some later ∧
            later.name = entry.name := by
      rw [Array.getElem?_modify, found]
      split
      · exact ⟨_, rfl, rfl⟩
      · exact ⟨_, rfl, rfl⟩
    have old : tree.Fits :=
      ⟨fits.exprs, fits.stmts, fits.functions, by simpa using fits.classes, fits.methodKeys⟩
    have sameName :
        (Tree.classDef
          { tree with
            classes := tree.classes.modify id.index fun entry =>
              { entry with parent := some parent } } other).name = (tree.classDef other).name := by
      have found := Array.getElem?_eq_getElem there
      obtain ⟨later, isLater, sameName⟩ := names _ _ found
      rw [Tree.classDef, Tree.classDef, Tree.class?, Tree.class?, isLater, found]
      exact sameName
    rw [sameName]
    exact classNamed?_of_names names (sound.named old other there)
  · rw [Array.getElem?_modify, if_neg] at found
    · exact sound.imported index entry found isImported
    · rintro rfl
      exact Nat.not_le.mpr isOwn isImported

/-- What a step for an entry keeps, the steps for all entries keep. -/
theorem Compile.forM_ok
    {α : Type}
    {context : CompileContext}
    {H : List α → CompileState → Prop}
    {step : α → Compile PUnit}
    {entries : List α}
    {state after : CompileState}
    (starts : H [] state)
    (keeps : ∀ done entry before after, entry ∈ entries → H done before →
      step entry context before = .ok ((), after) → H (done ++ [entry]) after)
    (runs : entries.forM step context state = .ok ((), after)) :
    H entries after := by
  suffices rest : ∀ done, H done state → H (done ++ entries) after by
    exact rest [] starts
  clear starts
  induction entries generalizing state with
  | nil =>
      cases runs
      exact fun done starts => by simpa using starts
  | cons entry entries inductionHypothesis =>
      intro done starts
      obtain ⟨_, between, taken, goesOn⟩ := bind_ok runs
      have first := keeps done entry state between List.mem_cons_self starts taken
      have rest := inductionHypothesis (fun done other before after isOther =>
        keeps done other before after (List.mem_cons_of_mem entry isOther)) goesOn _ first
      rwa [List.append_assoc] at rest

/-- Without circles, every class that is followed upwards leads to a class without a parent. -/
theorem Tree.rooted_of_not_inheritsItself
    {id : ClassId}
    {bound : Nat}
    {parent : Option ClassId}
    (noCircle : Compile.inheritsItself tree id bound parent = false) :
    ∀ ancestor ∈ parent, tree.Rooted ancestor := by
  induction bound generalizing parent with
  | zero =>
      cases parent with
      | none => exact nofun
      | some ancestor => cases noCircle
  | succ bound inductionHypothesis =>
      cases parent with
      | none => exact nofun
      | some ancestor =>
          rintro _ ⟨⟩
          have above := inductionHypothesis (Bool.or_eq_false_iff.mp noCircle).2
          cases isParent : (tree.classDef ancestor).parent with
          | none => exact .top isParent
          | some parent => exact .under isParent (above parent isParent)

/-- To find a class changes nothing but the classes. -/
theorem Compile.resolveClass?_same
    {name : String}
    {found : Option ClassId}
    {state after : CompileState}
    (runs : resolveClass? name context state = .ok (found, after)) :
    ∃ classes, after = { state with tree := { state.tree with classes } } := by
  unfold resolveClass? at runs
  obtain ⟨_, _, taken, runs⟩ := bind_ok runs
  cases taken
  obtain ⟨_, _, taken, runs⟩ := bind_ok runs
  cases taken
  cases imported :
      importClass context.registry (context.registry.classes.length + 1) state.tree name with
  | some found =>
      rw [imported] at runs
      cases runs
      exact ⟨_, congrArg (fun tree => { state with tree }) (importClass_same imported)⟩
  | none =>
      rw [imported] at runs
      cases runs
      exact ⟨state.tree.classes, rfl⟩

/-- The parents of all classes of the program are set, and each leads to a class without one. -/
theorem Compile.resolveParents_ok
    {items : List ClassItem}
    {state after : CompileState}
    (ready : state.Ready context known own)
    (bare : state.tree.Bare)
    (isOwn : ∀ item ∈ items, item.id.index < own)
    (runs : resolveParents items context state = .ok ((), after)) :
    after.Ready context known own ∧ after.tree.Bare ∧ after.scope = state.scope ∧
      state.tree.classes.size ≤ after.tree.classes.size ∧
        ∀ item ∈ items, after.tree.Rooted item.id := by
  unfold resolveParents at runs
  obtain ⟨_, between, setting, runs⟩ := bind_ok runs
  obtain ⟨_, _, taken, runs⟩ := bind_ok runs
  cases taken
  have set :
      between.Ready context known own ∧ between.tree.Bare ∧ between.scope = state.scope ∧
        state.tree.classes.size ≤ between.tree.classes.size := by
    refine forM_ok (H := fun _ later =>
      later.Ready context known own ∧ later.tree.Bare ∧ later.scope = state.scope ∧
        state.tree.classes.size ≤ later.tree.classes.size)
      ⟨ready, bare, rfl, Nat.le_refl _⟩ ?_ setting
    rintro done item before later isItem ⟨beforeReady, beforeBare, sameScope, more⟩ taken
    cases isParent : item.parent with
    | some found =>
      simp only [isParent] at taken
      obtain ⟨resolved, middle, resolves, taken⟩ := bind_ok taken
      obtain ⟨middleReady, onward, inside⟩ := Builds.resolveClass? found.1 beforeReady _ _ resolves
      obtain ⟨classes, rfl⟩ := resolveClass?_same resolves
      cases resolved with
      | none => cases taken
      | some parent =>
          cases taken
          have isItemOwn := isOwn item isItem
          have middleBare : Tree.Bare { before.tree with classes } :=
            { beforeBare with }
          refine ⟨⟨middleReady.offers,
            middleReady.tree.setParent middleBare isItemOwn (inside parent rfl), ?_,
            middleReady.inside⟩, { beforeBare with }, sameScope, ?_⟩
          · simpa using middleReady.owner
          · simpa using Nat.le_trans more onward.tree.grows.classes_size
    | none =>
      simp only [isParent] at taken
      cases taken
      exact ⟨beforeReady, beforeBare, sameScope, more⟩
  obtain ⟨betweenReady, betweenBare, sameScope, more⟩ := set
  have checked : after = between ∧ ∀ item ∈ items, between.tree.Rooted item.id := by
    refine forM_ok (H := fun done later =>
      later = between ∧ ∀ item ∈ done, between.tree.Rooted item.id) ⟨rfl, nofun⟩ ?_ runs
    rintro done item before later isItem ⟨rfl, rooted⟩ taken
    split at taken
    · cases taken
    · next noCircle =>
      cases taken
      have noCircle := Bool.eq_false_iff.mpr noCircle
      have above := Tree.rooted_of_not_inheritsItself noCircle
      refine ⟨rfl, List.forall_mem_append.mpr ⟨rooted, List.forall_mem_singleton.mpr ?_⟩⟩
      cases isParent : (before.tree.classDef item.id).parent with
      | none => exact .top isParent
      | some parent => exact .under isParent (above parent isParent)
  obtain ⟨rfl, rooted⟩ := checked
  exact ⟨betweenReady, betweenBare, sameScope, more, rooted⟩

end Parents

/-! ## Parameters -/

/-- A literal stands on its own. -/
theorem CompileState.Added.standsAlone
    {state : CompileState}
    {value : LiteralValue}
    {ty : Ty}
    {place : Span}
    {id : ExprId}
    (added : state.Added (.literal value) ty place id) :
    state.tree.StandsAlone id where
  inside := added.has.1
  reads fits slot reads := by
    have isNode := added.node fits
    cases reads with
    | here found isLocal =>
        rw [Tree.expr, found] at isNode
        cases isNode
        cases isLocal
    | within found isChild _ =>
        rw [Tree.expr, found] at isNode
        cases isNode
        cases isChild

/-- Parameters that have been read so far. -/
structure CompileState.HasParams
    (context : CompileContext) (state : CompileState) (params : List Param) :
    Prop where
  scopeless : state.scope.Outside
  sound : ∀ (index : Nat) param, params[index]? = some param → state.tree.ParamSound index param
  defaults :
    params.Pairwise fun first second => first.defaultValue.isSome → second.defaultValue.isSome
  short : context.Ended → params.length ≤ state.position

/-- No parameter has a default if the last one has none. -/
theorem Param.noDefault_of_last
    {params : List Param}
    (defaults : params.Pairwise fun first second =>
      first.defaultValue.isSome → second.defaultValue.isSome)
    (last : ¬(params.getLast?.bind (·.defaultValue)).isSome) :
    ∀ param ∈ params, ¬param.defaultValue.isSome := by
  induction params using List.reverseRecOn with
  | nil => exact nofun
  | append_singleton params final _ =>
      obtain ⟨-, -, before⟩ := List.pairwise_append.mp defaults
      have none : ¬final.defaultValue.isSome := by simpa using last
      refine List.forall_mem_append.mpr ⟨fun param isParam hasDefault => ?_,
        List.forall_mem_singleton.mpr none⟩
      exact none (before param isParam final (List.mem_singleton_self _) hasDefault)

namespace CompileState.HasParams

variable {context : CompileContext} {before after : CompileState} {params : List Param}

/-- Parameters stay sound. -/
theorem mono
    (has : before.HasParams context params)
    (onward : before.Onward after) :
    after.HasParams context params where
  scopeless := onward.scope.stays has.scopeless
  sound index param found := (has.sound index param found).mono onward.tree
  defaults := has.defaults
  short ended := Nat.le_trans (has.short ended) onward.position

/-- One more parameter in front of a token that is consumed. -/
theorem snoc
    {param : Param}
    {position : Nat}
    (has : before.HasParams context params)
    (sound : before.tree.ParamSound params.length param)
    (last : (params.getLast?.bind (·.defaultValue)).isSome → param.defaultValue.isSome)
    (strictly : context.Ended → before.position < position) :
    CompileState.HasParams context ⟨position, before.tree, before.scope⟩ (params ++ [param]) where
  scopeless := has.scopeless
  sound index other found := by
    rw [List.getElem?_append] at found
    split at found
    · exact has.sound index other found
    · next inside =>
      obtain ⟨isLast, rfl⟩ := List.getElem?_eq_some_iff.mp found
      have isLast : index = params.length := by
        simp only [List.length_singleton] at isLast
        omega
      simpa [isLast] using sound
  defaults := by
    refine List.pairwise_append.mpr ⟨has.defaults, List.pairwise_singleton _ _, ?_⟩
    rintro first isFirst _ isNew hasDefault
    obtain rfl := List.mem_singleton.mp isNew
    by_contra none
    exact Param.noDefault_of_last has.defaults (fun isSome => none (last isSome)) first isFirst
      hasDefault
  short ended := by
    rw [List.length_append, List.length_singleton]
    exact Nat.lt_of_le_of_lt (has.short ended) (strictly ended)

end CompileState.HasParams

namespace Compile.Builds

variable {context : CompileContext} {known : NativeId → Prop} {own : Nat} {state : CompileState}

/-- Brackets behind a type that has values make a type that has values. -/
theorem arraySuffixes
    {ty : Ty}
    (isValue : ty.isVoid = false) :
    Builds context known own state (fun _ ty => ty.isVoid = false) (Compile.arraySuffixes ty) := by
  unfold Compile.arraySuffixes
  refine loop (H := fun _ ty => ty.isVoid = false) isValue fun between ty _ isValue => ?_
  exact eating (fun _ _ _ => behind fun _ _ _ => pure rfl) (pure isValue)

/-- The default of a parameter. -/
theorem parameterDefault
    (ty : Ty)
    (scopeless : state.scope.Outside) :
    Builds context known own state
      (fun after id => after.tree.StandsAlone id ∧
        ∃ value place, after.tree.Fits → after.tree.expr id = ⟨.literal value, ty, place⟩)
      (Compile.parameterDefault ty) := by
  unfold Compile.parameterDefault
  refine behind fun isMissing position forth => ?_
  dsimp only
  split
  · exact failedThen
  have enters : state.scope.Extends (Scope.enterInitializer none false) :=
    ⟨by simp [Scope.locals, scopeless.function], fun _ => rfl, scopeless.owner.symm⟩
  refine scoping enters (bind expression fun between value onward has => ?_)
  have leaves : between.scope.Extends between.scope.leaveInitializer :=
    ⟨List.prefix_rfl, id, onward.scope.owner.symm⟩
  refine scoping leaves (reading rfl (reading rfl (reading rfl ?_)))
  split
  · exact failedAtThen
  refine behind fun constant _ _ => behind fun converted _ _ => behind fun literal _ _ => ?_
  refine weaken (addExpr_added (.plain rfl (List.forall_mem_nil _) fun _ => trivial))
    fun after id _ added => ?_
  exact ⟨added.standsAlone, literal, _, added.node⟩

/-- Parameters behind an opening parenthesis. -/
theorem parameters
    (scopeless : state.scope.Outside) :
    Builds context known own state (CompileState.HasParams context) Compile.parameters := by
  have starts (position : Nat) :
      CompileState.HasParams context ⟨position, state.tree, state.scope⟩ [] :=
    ⟨scopeless, nofun, .nil, fun _ => Nat.zero_le _⟩
  unfold Compile.parameters
  refine eating (fun _ _ _ => pure (starts _)) ?_
  refine loop (H := CompileState.HasParams context) (starts _) fun between params _ has => ?_
  refine reading rfl (bind parseType fun first base on _ => ?_)
  dsimp only
  split
  · exact failedAtThen
  next isValue =>
  refine behind fun named position forth => ?_
  refine bind (arraySuffixes (by simpa using isValue)) fun second ty further isValue => ?_
  have has := has.mono (on.trans ((CompileState.Onward.ofPosition forth).trans further))
  split
  · exact failedAtThen
  have ends {state : CompileState} (param : Param) (has : state.HasParams context params)
      (sound : state.tree.ParamSound params.length param)
      (last : (params.getLast?.bind (·.defaultValue)).isSome → param.defaultValue.isSome) :
      Builds context known own state
        (Turn.Meets (CompileState.HasParams context) (CompileState.HasParams context))
        (do
          let params := params ++ [param]
          if ← eat .closePar then return .done params
          expect .comma .closePar
          return Turn.again params) := by
    refine eating (fun _ _ strictly => pure (has.snoc sound last strictly)) ?_
    exact expecting fun _ _ strictly => pure (has.snoc sound last strictly)
  refine eating (fun position forth _ => ?_) ?_
  · have has := has.mono (.ofPosition forth)
    refine bind (M := fun after found => ∃ id, found = some id ∧ after.tree.StandsAlone id ∧
      ∃ value place, after.tree.Fits → after.tree.expr id = ⟨.literal value, ty, place⟩)
      (map (parameterDefault ty has.scopeless) fun _ id _ has => ⟨id, rfl, has⟩) ?_
    rintro after _ further ⟨id, rfl, stands, value, written, isNode⟩
    refine ends ⟨_, ty, _, some id⟩ (has.mono further) ⟨rfl, isValue, ?_, ?_, ?_⟩ fun _ => rfl
    · rintro _ ⟨⟩
      exact stands
    · rintro _ ⟨⟩ fits
      exact congrArg Expr.ty (isNode fits)
    · rintro _ ⟨⟩ fits
      exact ⟨value, congrArg Expr.kind (isNode fits)⟩
  · simp only [Bool.false_eq_true, reduceIte]
    split
    · exact failedAtThen
    next noDefault =>
    exact reading rfl (ends ⟨_, ty, _, none⟩ has ⟨rfl, isValue, nofun, nofun, nofun⟩
      fun hasDefault => absurd hasDefault noDefault)

end Compile.Builds

/-! ## Second pass -/

/-- Every function that has been declared waits for its body. -/
structure Compile.Pending.Sound
    (context : CompileContext) (tree : Tree) (pending : Compile.Pending) :
    Prop where
  covers :
    ∀ index < tree.functions.size, ∃ body ∈ pending.bodies, body.function = Id.ofIndex index
  bodies :
    ∀ body ∈ pending.bodies,
      body.function.index < tree.functions.size ∧ body.body ≤ context.tokens.size - 1
  initials :
    ∀ initial ∈ pending.initials,
      initial.owner.index < tree.classes.size ∧ initial.position ≤ context.tokens.size - 1

namespace Compile.Pending.Sound

variable {context : CompileContext} {before after : Tree} {pending : Compile.Pending}

/-- The functions that wait go on waiting while no other is declared. -/
theorem mono
    (sound : pending.Sound context before)
    (grows : before.Grows after)
    (functions : after.functions.size = before.functions.size) :
    pending.Sound context after where
  covers index inside := sound.covers index (functions ▸ inside)
  bodies body isBody := functions ▸ sound.bodies body isBody
  initials initial isInitial :=
    ⟨Nat.lt_of_lt_of_le (sound.initials initial isInitial).1 grows.classes_size,
      (sound.initials initial isInitial).2⟩

/-- A function that is declared waits as well. -/
theorem declared
    {id : FuncId}
    {body : Nat}
    (sound : pending.Sound context before)
    (grows : before.Grows after)
    (isNew : id = Id.ofIndex before.functions.size)
    (functions : after.functions.size = before.functions.size + 1)
    (inside : body ≤ context.tokens.size - 1) :
    Compile.Pending.Sound context after
      { pending with bodies := pending.bodies ++ [⟨id, body⟩] } where
  covers index there := by
    by_cases old : index < before.functions.size
    · obtain ⟨found, isBody, isIts⟩ := sound.covers index old
      exact ⟨found, List.mem_append_left _ isBody, isIts⟩
    · have isLast : index = before.functions.size := by omega
      exact ⟨⟨id, body⟩, List.mem_append_right _ (List.mem_singleton_self _),
        isLast ▸ isNew⟩
  bodies := by
    refine List.forall_mem_append.mpr ⟨fun found isBody => ?_,
      List.forall_mem_singleton.mpr ⟨?_, inside⟩⟩
    · obtain ⟨there, position⟩ := sound.bodies found isBody
      exact ⟨Nat.lt_trans there (functions ▸ Nat.lt_succ_self _), position⟩
    · rw [isNew, functions]
      exact Nat.lt_succ_of_le (Id.index_ofIndex_le _)
  initials initial isInitial :=
    ⟨Nat.lt_of_lt_of_le (sound.initials initial isInitial).1 grows.classes_size,
      (sound.initials initial isInitial).2⟩

end Compile.Pending.Sound

namespace Compile.Builds

variable {context : CompileContext} {known : NativeId → Prop} {own : Nat} {state : CompileState}
  {α : Type}

/-- The body of a function is skipped; it starts inside the text. -/
theorem skipBody :
    Builds context known own state (fun _ body => body ≤ context.tokens.size - 1)
      Compile.skipBody := by
  unfold Compile.skipBody
  refine withReady fun ready => reading rfl ?_
  dsimp only
  split
  · exact failedThen
  · exact reading rfl (behind fun _ _ _ => pure ready.inside)

end Compile.Builds

namespace Compile.Passes

variable {context : CompileContext} {known : NativeId → Prop} {own : Nat} {state : CompileState}

/-- What follows a change of a class that leaves its name, its parent and its fields. -/
theorem changing
    {post : CompileState → α → Prop}
    {id : ClassId}
    {change : ClassDef → ClassDef}
    {next : Unit → Compile α}
    (becomes : ∀ entry : ClassDef, entry.Becomes (change entry))
    (fits : ∀ entry, state.tree.classes[id.index]? = some entry →
      state.tree.ClassSound context known entry →
      state.tree.ClassSound context known (change entry))
    (rest : ∀ tree,
      tree = { state.tree with classes := state.tree.classes.modify id.index change } →
      Passes context known own ⟨state.position, tree, state.scope⟩ post (next ())) :
    Passes context known own state post (modifyClass id change >>= next) := by
  unfold modifyClass
  simp only [bind_assoc]
  refine reading rfl (growing (fun ready => ⟨?_, .modifyClass _ _ becomes⟩) (rest _ rfl))
  exact ready.tree.modifyClass id.index becomes fun entry found =>
    fits entry found (ready.tree.classes entry (Array.mem_of_getElem? found))

/-- Fields have been declared outside all functions, and their initializers wait. -/
structure Fields
    (context : CompileContext) (owner : ClassId) (functions : Array FunctionDef)
    (state : CompileState) (initials : List PendingInitial) :
    Prop where
  scopeless : state.scope.Outside
  declaring : state.tree.Declaring
  functions : state.tree.functions = functions
  initials : ∀ initial ∈ initials,
    initial.owner = owner ∧ initial.position ≤ context.tokens.size - 1

/-- A class goes on being blank when a field is added. -/
theorem blank_addField
    {entry : ClassDef}
    {field : FieldDef}
    (isStatic : Bool)
    (bare : field.initial = none)
    (blank : entry.Blank) :
    ClassDef.Blank
      (if isStatic = true then { entry with statics := entry.statics ++ [field] }
      else { entry with fields := entry.fields ++ [field] }) := by
  obtain ⟨own, statics⟩ := List.forall_mem_append.mp blank
  have last : ∀ other ∈ [field], other.initial = none := List.forall_mem_singleton.mpr bare
  split
  · exact List.forall_mem_append.mpr ⟨own, List.forall_mem_append.mpr ⟨statics, last⟩⟩
  · exact List.forall_mem_append.mpr ⟨List.forall_mem_append.mpr ⟨own, last⟩, statics⟩

/-- A class with one more field looks the same to other classes. -/
theorem becomes_addField
    {entry : ClassDef}
    {field : FieldDef}
    (isStatic : Bool) :
    entry.Becomes
      (if isStatic = true then { entry with statics := entry.statics ++ [field] }
      else { entry with fields := entry.fields ++ [field] }) := by
  split
  · exact ⟨rfl, rfl, Nat.le_refl _, List.prefix_rfl⟩
  · exact ⟨rfl, rfl, by simp, List.prefix_rfl⟩

/-- A class goes on being sound when a field is added under a name that it does not have. -/
theorem sound_addField
    {entry : ClassDef}
    {field : FieldDef}
    (isStatic : Bool)
    (isNew : ∀ other ∈ entry.fields ++ entry.statics, other.name ≠ field.name)
    (bare : field.initial = none)
    (sound : state.tree.ClassSound context known entry) :
    state.tree.ClassSound context known
      (if isStatic = true then { entry with statics := entry.statics ++ [field] }
      else { entry with fields := entry.fields ++ [field] }) := by
  have waits : ∀ id ∈ field.initial, state.tree.StandsAlone id := bare ▸ nofun
  obtain ⟨own, statics⟩ := List.forall_mem_append.mp sound.initials
  split
  · refine ⟨sound.names, sound.parent, ?_, sound.methods, sound.dispatch⟩
    exact List.forall_mem_append.mpr ⟨own, List.forall_mem_append.mpr
      ⟨statics, List.forall_mem_singleton.mpr waits⟩⟩
  · refine ⟨fun once => ?_, sound.parent, ?_, sound.methods, sound.dispatch⟩
    · rw [List.map_append, List.nodup_append']
      refine ⟨sound.names once, List.nodup_singleton _, ?_⟩
      rintro name isTaken isName
      obtain ⟨other, isOther, rfl⟩ := List.mem_map.mp isTaken
      exact isNew other (List.mem_append_left _ isOther) (List.mem_singleton.mp isName)
    · exact List.forall_mem_append.mpr
        ⟨List.forall_mem_append.mpr ⟨own, List.forall_mem_singleton.mpr waits⟩, statics⟩

/-- Fields of one type. -/
theorem declareFields
    {owner : ClassId}
    {modifiers : Modifiers}
    {base : Ty}
    {first : String × Span}
    (scopeless : state.scope.Outside)
    (declaring : state.tree.Declaring) :
    Passes context known own state (Fields context owner state.tree.functions)
      (Compile.declareFields owner modifiers base first) := by
  unfold Compile.declareFields
  dsimp only
  split
  · exact ofBuilds .failedAtThen
  refine bind (M := Fields context owner state.tree.functions)
    (loop (H := fun between next => Fields context owner state.tree.functions between next.2)
      ⟨scopeless, declaring, rfl, nofun⟩ ?_) fun after initials _ fields => behind fun _ position =>
        pure ⟨fields.scopeless, fields.declaring, fields.functions, fields.initials⟩
  rintro between ⟨⟨name, place⟩, initials⟩ _ fields
  refine building (Builds.declaredType base) fun first declared onward _ => reading rfl ?_
  have scopeless := onward.scope.stays fields.scopeless
  have declaring :=
    fields.declaring.gains onward.functions onward.classes onward.tree.grows
  dsimp only
  split
  · exact ofBuilds .failedAtThen
  next isNew =>
  refine changing (fun entry => becomes_addField _)
    (fun entry found sound => sound_addField _ ?_ rfl sound) fun tree isTree => ?_
  · have isEntry : first.tree.classDef owner = entry := by
      rw [Tree.classDef, Tree.class?, found]
      rfl
    rw [isEntry] at isNew
    simpa [or_imp, forall_and] using isNew
  have ends {after : CompileState} {initials : List PendingInitial}
      (fields : Fields context owner state.tree.functions after initials) :
      Passes context known own after
        (Turn.Meets
          (fun after (next : (String × Span) × List PendingInitial) =>
            Fields context owner state.tree.functions after next.2)
          (Fields context owner state.tree.functions))
        (do
          if ← eat .comma then return .again (← expectName .noVariable, initials)
          else return .done initials) := by
    refine behind fun more position => ?_
    have here : Fields context owner state.tree.functions ⟨position, after.tree, after.scope⟩
        initials := ⟨fields.scopeless, fields.declaring, fields.functions, fields.initials⟩
    split
    · exact behind fun _ _ =>
        pure ⟨here.scopeless, here.declaring, here.functions, here.initials⟩
    · exact pure here
  have functions : tree.functions = state.tree.functions :=
    (congrArg Tree.functions isTree).trans (onward.functions.trans fields.functions)
  have declaring : tree.Declaring := by
    rw [isTree]
    refine declaring.modifyClass _ (fun entry => blank_addField _ rfl)
      (fun entry => becomes_addField _) fun entry => ?_
    split <;> rfl
  refine behind fun isAssigned position => withReady fun ready => ?_
  split
  · refine reading rfl (behind fun _ _ => reading rfl (ends ⟨scopeless, declaring, functions, ?_⟩))
    exact List.forall_mem_append.mpr
      ⟨fields.initials, List.forall_mem_singleton.mpr ⟨rfl, ready.inside⟩⟩
  · exact reading rfl (ends ⟨scopeless, declaring, functions, fields.initials⟩)

/-- A function has been declared behind a number of others. -/
structure Declared (count : Nat) (state : CompileState) (id : FuncId) : Prop where
  scopeless : state.scope.Outside
  declaring : state.tree.Declaring
  isLast : id = Id.ofIndex count
  functions : state.tree.functions.size = count + 1

/-- A function that has been declared becomes a method of a class. -/
theorem addMethod
    {id : FuncId}
    {owner : ClassId}
    {name : String}
    {visibility : Visibility}
    {slot : Option MethodSlot}
    {count : Nat}
    (scopeless : state.scope.Outside)
    (isLast : id = Id.ofIndex count)
    (functions : state.tree.functions.size = count + 1)
    (slots : ∀ key ∈ slot, key.index < state.tree.methodKeys.size)
    (declaring :
      Tree.Declaring
        { state.tree with
          classes := state.tree.classes.modify owner.index fun entry =>
            { entry with methods := entry.methods ++ [⟨name, .user id, visibility, slot⟩] } }) :
    Passes context known own state (Declared count) (do
      modifyClass owner fun entry =>
        { entry with methods := entry.methods ++ [⟨name, .user id, visibility, slot⟩] }
      return id) := by
  refine changing (fun _ => ⟨rfl, rfl, Nat.le_refl _, List.prefix_append _ _⟩)
    (fun entry _ sound => ?_) fun tree isTree => pure ⟨scopeless, ?_, isLast, ?_⟩
  · refine ⟨sound.names, sound.parent, sound.initials, List.forall_mem_append.mpr ⟨sound.methods,
      List.forall_mem_singleton.mpr ⟨?_, slots⟩⟩, sound.dispatch⟩
    change id.index < _
    rw [functions, isLast]
    exact Nat.lt_succ_of_le (Id.index_ofIndex_le _)
  · rw [isTree]
    exact declaring
  · rw [isTree]
    exact functions

/-- A function or method is declared behind the others. -/
theorem declareSignature
    {modifiers : Modifiers}
    {result : Ty}
    {owner : Option ClassId}
    {name : String}
    {place : Span}
    (scopeless : state.scope.Outside)
    (declaring : state.tree.Declaring)
    (inside : ∀ id ∈ owner, id.index < state.tree.classes.size) :
    Passes context known own state (Declared state.tree.functions.size)
      (Compile.declareSignature modifiers result owner name place) := by
  unfold Compile.declareSignature
  refine behind fun _ position => ?_
  refine building (Builds.parameters scopeless) fun between params on has => reading rfl ?_
  have there : ∀ id ∈ owner, id.index < between.tree.classes.size := fun id isOwner =>
    Nat.lt_of_lt_of_le (inside id isOwner) on.tree.grows.classes_size
  have size : between.tree.functions.size = state.tree.functions.size :=
    congrArg Array.size on.functions
  have declaring := declaring.gains on.functions on.classes on.tree.grows
  dsimp only
  split
  · exact ofBuilds .failedAtThen
  next isNew =>
  refine growing (fun ready => ?_) ?_
  · refine ⟨ready.tree.pushFunction _ ⟨there, has.sound, has.defaults, fun ended => ?_, nofun⟩,
      .pushFunction _ _⟩
    exact Nat.le_trans (has.short ended) ready.inside
  rw [← size]
  generalize isFunction :
    (⟨name, owner, params, result, modifiers, none, [], place⟩ : FunctionDef) = function at isNew ⊢
  have bare : function.body = none := by rw [← isFunction]
  have isOwner : function.owner = owner := by rw [← isFunction]
  have isName : function.name = name := by rw [← isFunction]
  have fresh : ∀ other ∈ between.tree.functions, other.owner = function.owner →
      other.signatureKey ≠ function.signatureKey := by
    rw [isOwner]
    intro other isThere sameOwner sameKey
    refine isNew (Array.any_eq_true'.mpr ⟨other, isThere, ?_⟩)
    rw [sameOwner, sameKey, beq_self_eq_true, beq_self_eq_true]
    rfl
  cases owner with
  | none => exact pure ⟨has.scopeless, declaring.declareFunction bare fresh isOwner, rfl, by simp⟩
  | some owner =>
      have inside := there owner rfl
      rw [← isName]
      dsimp only
      split
      · next isConstructor =>
        have isConstructor : function.name = (between.tree.classDef owner).name :=
          (beq_iff_eq.mp isConstructor).symm
        exact reading rfl (addMethod has.scopeless rfl (by simp) nofun
          (declaring.declareConstructor bare fresh inside isOwner isConstructor))
      · next isNamed =>
        have isNamed : function.name ≠ (between.tree.classDef owner).name :=
          fun same => isNamed (beq_iff_eq.mpr same.symm)
        refine reading rfl (growing (fun ready => ⟨ready.tree.internMethodKey _,
          .internMethodKey _ _⟩) (reading rfl (addMethod has.scopeless rfl ?_ ?_ ?_)))
        · obtain ⟨_, same⟩ := Tree.internMethodKey_same _ _
          rw [same]
          simp
        · rintro _ ⟨⟩
          exact Tree.internMethodKey_inside _ _
        · have named := @Tree.Declaring.declareNamed between.tree function owner
            modifiers.visibility declaring bare fresh
            { between.tree with functions := between.tree.functions.push function }
            inside isOwner isNamed rfl
          obtain ⟨keys, same⟩ := Tree.internMethodKey_same
            { between.tree with functions := between.tree.functions.push function }
            function.signatureKey
          rw [same] at named ⊢
          exact named

/-- The functions that wait, outside all functions. -/
structure Waiting (context : CompileContext) (state : CompileState) (pending : Pending) : Prop where
  scopeless : state.scope.Outside
  declaring : state.tree.Declaring
  sound : pending.Sound context state.tree

/-- A function waits once it is declared and its body is skipped. -/
theorem Waiting.declared
    {between after : CompileState}
    {pending : Pending}
    {id : FuncId}
    {body : Nat}
    (waiting : Waiting context state pending)
    (keeps : state.tree.Keeps between.tree)
    (declared : Declared state.tree.functions.size between id)
    (onward : between.Onward after)
    (inside : body ≤ context.tokens.size - 1) :
    Waiting context after { pending with bodies := pending.bodies ++ [⟨id, body⟩] } where
  scopeless := onward.scope.stays declared.scopeless
  declaring := declared.declaring.gains onward.functions onward.classes onward.tree.grows
  sound := waiting.sound.declared (keeps.trans onward.tree).grows declared.isLast
    ((congrArg Array.size onward.functions).trans declared.functions) inside

/-- The functions go on waiting. -/
theorem Waiting.mono
    {after : CompileState}
    {pending : Pending}
    (waiting : Waiting context state pending)
    (onward : state.Onward after) :
    Waiting context after pending where
  scopeless := onward.scope.stays waiting.scopeless
  declaring := waiting.declaring.gains onward.functions onward.classes onward.tree.grows
  sound := waiting.sound.mono onward.tree.grows (congrArg Array.size onward.functions)

/-- The members of a class. -/
theorem declareMembers
    {item : ClassItem}
    {pending : Pending}
    (waiting : Waiting context state pending)
    (inside : item.id.index < state.tree.classes.size)
    (bodyInside : item.body ≤ context.tokens.size - 1) :
    Passes context known own state (Waiting context) (Compile.declareMembers item pending) := by
  unfold Compile.declareMembers
  refine reading rfl (moving bodyInside (behind fun _ position => ?_))
  have starts : Waiting context ⟨position, state.tree, state.scope⟩ pending :=
    ⟨waiting.scopeless, waiting.declaring, waiting.sound⟩
  refine loop (H := Waiting context) starts fun between pending keeps waiting => ?_
  have inside := Nat.lt_of_lt_of_le inside keeps.grows.classes_size
  have member {state : CompileState} (modifiers : Modifiers) (ty : Ty)
      (waiting : Waiting context state pending) (inside : item.id.index < state.tree.classes.size) :
      Passes context known own state (Turn.Meets (Waiting context) (Waiting context)) (do
        let named ← expectName .noVariable
        if ← at' .openPar then
          let function ← Compile.declareSignature modifiers ty (some item.id) named.1 named.2
          let body ← skipBody
          return Turn.again { pending with bodies := pending.bodies ++ [⟨function, body⟩] }
        else
          let initials ← Compile.declareFields item.id modifiers ty named
          return Turn.again { pending with initials := pending.initials ++ initials }) := by
    refine building (M := fun _ _ => True) (.strides fun _ _ _ => trivial)
      fun state named onward _ => ?_
    have waiting := waiting.mono onward
    have inside := Nat.lt_of_lt_of_le inside onward.tree.grows.classes_size
    refine reading rfl ?_
    split
    · refine bind (declareSignature waiting.scopeless waiting.declaring ?_) fun _ id keeps declared => ?_
      · rintro _ ⟨⟩
        exact inside
      · refine building Builds.skipBody fun _ body onward bodyInside => pure ?_
        exact waiting.declared keeps declared onward bodyInside
    · refine bind (declareFields waiting.scopeless waiting.declaring) fun _ initials keeps fields => ?_
      have sound := waiting.sound.mono keeps.grows (congrArg Array.size fields.functions)
      refine pure ⟨fields.scopeless, fields.declaring, sound.covers, sound.bodies,
        List.forall_mem_append.mpr ⟨sound.initials, fun initial isNew => ?_⟩⟩
      obtain ⟨isOwner, position⟩ := fields.initials initial isNew
      exact ⟨isOwner ▸ Nat.lt_of_lt_of_le inside keeps.grows.classes_size, position⟩
  refine behind fun isEnd position => ?_
  have here : Waiting context ⟨position, between.tree, between.scope⟩ pending :=
    ⟨waiting.scopeless, waiting.declaring, waiting.sound⟩
  split
  · exact pure here
  · refine reading rfl ?_
    dsimp only
    split
    · exact ofBuilds .failedThen
    · refine building (M := fun _ _ => True) (.strides fun _ _ _ => trivial)
        fun state modifiers onward _ => reading rfl (behind fun next position => ?_)
      have waiting : Waiting context ⟨position, state.tree, state.scope⟩ pending :=
        ⟨(here.mono onward).scopeless, (here.mono onward).declaring, (here.mono onward).sound⟩
      have inside := Nat.lt_of_lt_of_le inside onward.tree.grows.classes_size
      split
      · exact reading rfl (member modifiers .void waiting inside)
      · refine building Builds.parseType fun state ty onward _ => ?_
        exact member modifiers ty (waiting.mono onward)
          (Nat.lt_of_lt_of_le inside onward.tree.grows.classes_size)

/-- A function of the program, which may belong to a class. -/
theorem declareFunction
    {start : Nat}
    {pending : Pending}
    (waiting : Waiting context state pending)
    (inside : start ≤ context.tokens.size - 1) :
    Passes context known own state
      (fun after body => Waiting context after { pending with bodies := pending.bodies ++ [body] })
      (Compile.declareFunction start) := by
  unfold Compile.declareFunction
  refine moving inside ?_
  have declared {state : CompileState} (modifiers : Modifiers) (result : Ty)
      (owner : Option ClassId) (name : String) (place : Span)
      (waiting : Waiting context state pending)
      (inside : ∀ id ∈ owner, id.index < state.tree.classes.size) :
      Passes context known own state
        (fun after body =>
          Waiting context after { pending with bodies := pending.bodies ++ [body] })
        (do
          if !(← at' .openPar) then fail .openPar
          let function ← Compile.declareSignature modifiers result owner name place
          return (⟨function, ← skipBody⟩ : PendingBody)) := by
    refine reading rfl ?_
    dsimp only
    split
    · exact ofBuilds .failedThen
    · refine bind (declareSignature waiting.scopeless waiting.declaring inside)
        fun _ id keeps declared => ?_
      refine building Builds.skipBody fun _ body onward bodyInside => pure ?_
      exact waiting.declared keeps declared onward bodyInside
  refine building (M := fun _ _ => True) (.strides fun _ _ _ => trivial)
    fun first modifiers on _ => ?_
  refine building Builds.parseType fun second result further _ => ?_
  refine building (M := fun _ _ => True) (.strides fun _ _ _ => trivial)
    fun third named last _ => ?_
  have starts : Waiting context ⟨start, state.tree, state.scope⟩ pending :=
    ⟨waiting.scopeless, waiting.declaring, waiting.sound⟩
  have waiting := starts.mono ((on.trans further).trans last)
  dsimp only
  refine building (M := fun _ _ => True) (.strides fun _ _ _ => trivial)
    fun fourth isMember onward _ => ?_
  have waiting := waiting.mono onward
  split
  · refine reading rfl (building (M := fun after owner => owner.index < after.tree.classes.size)
      (.require fun owner found => ?_) fun fifth owner onward inside => ?_)
    · obtain ⟨isNamed, -⟩ := Option.filter_eq_some_iff.mp found
      exact Tree.classNamed?_inside isNamed
    · have waiting := waiting.mono onward
      refine building (M := fun _ _ => True) (.strides fun _ _ _ => trivial)
        fun last named onward _ => reading rfl ?_
      refine declared modifiers result (some owner) _ _ (waiting.mono onward) ?_
      rintro _ ⟨⟩
      exact Nat.lt_of_lt_of_le inside onward.tree.grows.classes_size
  · exact reading rfl (declared modifiers result none _ _ waiting nofun)

end Compile.Passes

end BotScript
