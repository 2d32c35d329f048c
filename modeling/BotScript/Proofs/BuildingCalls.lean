import BotScript.Proofs.BuildingSteps

namespace BotScript

/-!
# Calls that are built

The candidate that a call selects takes its arguments: the arguments that are
written down have been compared with the parameters, and the parameters behind
them have defaults, which are literals of the types of the parameters.
-/

/-- Parameters with defaults come last, so none is without one behind the required ones. -/
theorem Param.hasDefault_of_drop
    {params : List Param}
    {count : Nat}
    (last : params.Pairwise fun first second =>
      first.defaultValue.isSome → second.defaultValue.isSome)
    (enough : (params.takeWhile fun param => param.defaultValue.isNone).length ≤ count)
    {param : Param}
    (isMember : param ∈ params.drop count) :
    param.defaultValue.isSome := by
  induction params generalizing count with
  | nil => simp at isMember
  | cons first others inductionHypothesis =>
      obtain ⟨behind, last⟩ := List.pairwise_cons.mp last
      by_cases hasDefault : first.defaultValue.isSome
      · obtain rfl | isOther := List.mem_cons.mp (List.mem_of_mem_drop isMember)
        · exact hasDefault
        · exact behind param isOther hasDefault
      · have isRequired : first.defaultValue.isNone = true := by simpa using hasDefault
        rw [List.takeWhile_cons_of_pos (by simpa using isRequired)] at enough
        cases count with
        | zero => simp at enough
        | succ count => exact inductionHypothesis last (Nat.le_of_succ_le_succ enough) isMember

namespace Tree

variable {context : CompileContext} {known : NativeId → Prop} {own : Nat} {tree : Tree}

/-- A function of the tree is in its table. -/
theorem function_mem
    {id : FuncId}
    (inside : id.index < tree.functions.size) :
    tree.function id ∈ tree.functions := by
  rw [Tree.function, Tree.function?, Array.getElem?_eq_getElem inside]
  exact Array.getElem_mem inside

/-- A class of the tree is in its table. -/
theorem classDef_mem
    {id : ClassId}
    (inside : id.index < tree.classes.size) :
    tree.classDef id ∈ tree.classes := by
  rw [Tree.classDef, Tree.class?, Array.getElem?_eq_getElem inside]
  exact Array.getElem_mem inside

/-! ## Arguments and parameters -/

/-- A value of a type that is not void fits that type. -/
theorem isAssignable_self
    {ty : Ty}
    (isValue : ty.isVoid = false) :
    tree.isAssignable ty ty = true := by
  simp [isAssignable, conversionCost?, isValue]

/-- Arguments that have a cost fit the parameters in the same places. -/
theorem argumentsCost?_fits
    {types : List Ty}
    {params : List Param}
    {cost : Nat}
    (hasCost : tree.argumentsCost? types params = some cost)
    (fewEnough : types.length ≤ params.length) :
    List.Forall₂ (fun ty param => tree.isAssignable ty param.ty = true)
      types (params.take types.length) := by
  induction types generalizing params cost with
  | nil => exact .nil
  | cons ty types inductionHypothesis =>
      cases params with
      | nil => cases fewEnough
      | cons param params =>
          unfold argumentsCost? at hasCost
          split at hasCost
          · next first rest isFirst isRest =>
              refine .cons ?_ (inductionHypothesis isRest (Nat.le_of_succ_le_succ fewEnough))
              rw [isAssignable, isFirst]
              rfl
          · cases hasCost

/-- The defaults of parameters fit them. -/
theorem defaults_fit
    {params : List Param}
    (fits : tree.Fits)
    (sound : ∀ param ∈ params, ∃ index, tree.ParamSound index param)
    (hasDefault : ∀ param ∈ params, param.defaultValue.isSome) :
    List.Forall₂ (fun id param => tree.isAssignable (tree.expr id).ty param.ty = true)
      (params.filterMap (·.defaultValue)) params := by
  induction params with
  | nil => exact .nil
  | cons param params inductionHypothesis =>
      obtain ⟨⟨index, paramSound⟩, others⟩ := List.forall_mem_cons.mp sound
      obtain ⟨isSome, haveDefaults⟩ := List.forall_mem_cons.mp hasDefault
      obtain ⟨id, isDefault⟩ := Option.isSome_iff_exists.mp isSome
      rw [List.filterMap_cons_some isDefault]
      refine .cons ?_ (inductionHypothesis others haveDefaults)
      rw [paramSound.defaultType id isDefault fits]
      exact isAssignable_self paramSound.ty

/-! ## Selected candidates -/

/-- What a call knows about the candidate that it selects. -/
structure Selected
    (context : CompileContext) (known : NativeId → Prop) (tree : Tree)
    (candidates : List MethodImpl) (arguments : List ExprId) (overload : Overload) :
    Prop where
  within : overload.target.Within known tree
  candidate : overload.target ∈ candidates
  defaults : ∀ id ∈ overload.defaults, tree.StandsAlone id
  literals :
    tree.Fits → ∀ id ∈ overload.defaults, ∃ value, (tree.expr id).kind = .literal value
  short : Short context (arguments ++ overload.defaults).length
  accepts :
    tree.Fits → ∀ function, overload.target = .user function →
      tree.Accepts function (arguments ++ overload.defaults)

/-- The cheapest candidate is one of the candidates. -/
theorem cheapest?_mem
    {costs : List (Except Mismatch (Nat × Overload))}
    {found : Nat × Overload}
    (isCheapest : cheapest? costs = some found) :
    .ok found ∈ costs := by
  induction costs generalizing found with
  | nil => cases isCheapest
  | cons first others inductionHypothesis =>
      cases first with
      | error mismatch => exact List.mem_cons_of_mem _ (inductionHypothesis isCheapest)
      | ok offer =>
          unfold cheapest? at isCheapest
          split at isCheapest
          · next better isBetter =>
              split at isCheapest
              · cases isCheapest
                exact List.mem_cons_of_mem _ (inductionHypothesis isBetter)
              · cases isCheapest
                exact List.mem_cons_self
          · cases isCheapest
            exact List.mem_cons_self

/-- The selected candidate is one of the candidates, and it accepts the arguments. -/
theorem resolveOverload_ok
    {registry : Registry}
    {candidates : List MethodImpl}
    {types : List Ty}
    {overload : Overload}
    (resolved : tree.resolveOverload registry candidates types = .ok overload) :
    ∃ cost, ∃ target ∈ candidates,
      tree.candidateCost registry types target = .ok (cost, overload) := by
  unfold resolveOverload at resolved
  dsimp only at resolved
  split at resolved
  · next cost found isCheapest =>
      cases resolved
      obtain ⟨target, isCandidate, isCost⟩ := List.mem_map.mp (cheapest?_mem isCheapest)
      exact ⟨cost, target, isCandidate, isCost⟩
  · cases resolved

/-- A selected candidate takes the arguments. -/
theorem Sound.selected
    {arguments : List ExprId}
    {candidates : List MethodImpl}
    {overload : Overload}
    (sound : tree.Sound context known own)
    (within : ∀ target ∈ candidates, target.Within known tree)
    (short : Short context arguments.length)
    (resolved :
      tree.resolveOverload context.registry candidates (arguments.map fun id => (tree.expr id).ty) =
        .ok overload) :
    tree.Selected context known candidates arguments overload := by
  obtain ⟨cost, target, isCandidate, accepted⟩ := resolveOverload_ok resolved
  have inside := within target isCandidate
  cases target with
  | native id =>
      unfold candidateCost at accepted
      dsimp only at accepted
      split at accepted
      · cases accepted
        exact ⟨inside, isCandidate, nofun, fun _ => nofun, by simpa using short, nofun⟩
      · cases accepted
      · cases accepted
  | user id =>
      have functionSound := sound.functions _ (function_mem inside)
      unfold candidateCost at accepted
      dsimp only at accepted
      split at accepted
      · cases accepted
      split at accepted
      · cases accepted
      next fewEnough enough =>
      split at accepted
      · next cost hasCost =>
          cases accepted
          generalize isFunction : tree.function id = function at *
          have fewEnough : arguments.length ≤ function.params.length := by simpa using fewEnough
          have enough : function.requiredParams ≤ arguments.length := by simpa using enough
          have hasDefault {param : Param} (isLeft : param ∈ function.params.drop arguments.length) :
              param.defaultValue.isSome :=
            Param.hasDefault_of_drop functionSound.defaults enough isLeft
          have paramSound {param : Param}
              (isLeft : param ∈ function.params.drop arguments.length) :
              ∃ index, tree.ParamSound index param := by
            obtain ⟨index, found⟩ := List.mem_iff_getElem?.mp (List.mem_of_mem_drop isLeft)
            exact ⟨index, functionSound.params index param found⟩
          have ofParam {default : ExprId} (isDefault : default ∈
              (function.params.drop (arguments.map fun id => (tree.expr id).ty).length).filterMap
                (·.defaultValue)) :
              ∃ index param, tree.ParamSound index param ∧ default ∈ param.defaultValue := by
            obtain ⟨param, isLeft, isItsDefault⟩ := List.mem_filterMap.mp isDefault
            rw [List.length_map] at isLeft
            obtain ⟨index, sound⟩ := paramSound isLeft
            exact ⟨index, param, sound, isItsDefault⟩
          refine ⟨inside, isCandidate, fun default isDefault => ?_, fun fits default isDefault => ?_,
            fun ended => ?_, fun fits => ?_⟩
          · obtain ⟨index, param, sound, isItsDefault⟩ := ofParam isDefault
            exact sound.standsAlone default isItsDefault
          · obtain ⟨index, param, sound, isItsDefault⟩ := ofParam isDefault
            exact sound.literal default isItsDefault fits
          · have fewDefaults := List.length_filterMap_le (·.defaultValue)
              (function.params.drop arguments.length)
            have := functionSound.short ended
            simp only [List.length_append, List.length_drop, List.length_map] at fewDefaults ⊢
            omega
          · rintro _ ⟨⟩
            have written := argumentsCost?_fits hasCost (by simpa using fewEnough)
            have left := defaults_fit fits (fun param => paramSound) fun param => hasDefault
            rw [List.length_map, List.forall₂_map_left_iff] at written
            have whole := List.rel_append written left
            dsimp only at whole
            rw [List.take_append_drop] at whole
            unfold Accepts
            rwa [isFunction, List.length_map]
      · cases accepted

/-! ## Candidates -/

/-- What a class knows about its methods. -/
structure CandidateSound
    (known : NativeId → Prop) (tree : Tree) (id : ClassId) (candidate : MethodCandidate) :
    Prop where
  target : candidate.target.Within known tree
  slot : ∀ key ∈ candidate.slot, key.index < tree.methodKeys.size
  inherits : candidate.owner ∈ tree.classChain id
  method :
    ∃ method ∈ (tree.classDef candidate.owner).methods,
      method.name ≠ (tree.classDef candidate.owner).name ∧ method.slot = candidate.slot ∧
        method.implementation = candidate.target ∧ method.visibility = candidate.visibility

/-- Methods that are added to the candidates come from the class. -/
theorem addCandidates_sound
    {id owner : ClassId}
    {found : List MethodCandidate}
    {methods : List MethodDef}
    (sound : ∀ candidate ∈ found, tree.CandidateSound known id candidate)
    (inherits : owner ∈ tree.classChain id)
    (fromClass : ∀ method ∈ methods, (method.implementation.Within known tree ∧
      ∀ slot ∈ method.slot, slot.index < tree.methodKeys.size) ∧
        method ∈ (tree.classDef owner).methods ∧ method.name ≠ (tree.classDef owner).name) :
    ∀ candidate ∈ addCandidates owner found methods, tree.CandidateSound known id candidate := by
  unfold addCandidates
  induction methods generalizing found with
  | nil => exact sound
  | cons method methods inductionHypothesis =>
      obtain ⟨first, others⟩ := List.forall_mem_cons.mp fromClass
      refine inductionHypothesis ?_ others
      dsimp only
      split
      · exact sound
      · intro candidate isMember
        obtain isOld | isNew := List.mem_append.mp isMember
        · exact sound candidate isOld
        · obtain rfl := List.mem_singleton.mp isNew
          exact ⟨first.1.1, first.1.2, inherits, method, first.2.1, first.2.2, rfl, rfl, rfl⟩

/-- What a class of a sound tree knows about its methods, whether the tree has it or not. -/
theorem Sound.methods
    (sound : tree.Sound context known own)
    (id : ClassId) :
    ∀ method ∈ (tree.classDef id).methods, method.implementation.Within known tree ∧
      ∀ slot ∈ method.slot, slot.index < tree.methodKeys.size := by
  by_cases inside : id.index < tree.classes.size
  · exact (sound.classes _ (classDef_mem inside)).methods
  · rw [Tree.classDef, Tree.class?, Array.getElem?_eq_none (Nat.le_of_not_lt inside)]
    intro method isMethod
    cases isMethod

/-- The methods that are visible on a class of a sound tree are in it. -/
theorem Sound.methodCandidates
    (sound : tree.Sound context known own)
    (id : ClassId)
    (name : String) :
    ∀ candidate ∈ tree.methodCandidates id name, tree.CandidateSound known id candidate := by
  unfold Tree.methodCandidates
  have folds (chain : List ClassId) (found : List MethodCandidate)
      (within : ∀ owner ∈ chain, owner ∈ tree.classChain id)
      (foundSound : ∀ candidate ∈ found, tree.CandidateSound known id candidate) :
      ∀ candidate ∈ chain.foldl (fun found owner =>
          let entry := tree.classDef owner
          if entry.name == name then found
          else addCandidates owner found (entry.methods.filter fun method => method.name == name))
          found,
        tree.CandidateSound known id candidate := by
    induction chain generalizing found with
    | nil => exact foundSound
    | cons owner chain inductionHypothesis =>
        obtain ⟨isOwner, others⟩ := List.forall_mem_cons.mp within
        refine inductionHypothesis _ others ?_
        dsimp only
        split
        · exact foundSound
        · next isOther =>
          refine addCandidates_sound foundSound isOwner fun method isMethod => ?_
          obtain ⟨isMethod, isNamed⟩ := List.mem_filter.mp isMethod
          have isNamed : method.name = name := by simpa using isNamed
          refine ⟨sound.methods owner method isMethod, isMethod, ?_⟩
          rw [isNamed]
          rintro rfl
          exact isOther (beq_self_eq_true _)
  exact folds _ [] (fun _ isOwner => isOwner) nofun

/-- The constructors of a class of a sound tree are in it. -/
theorem Sound.constructors
    (sound : tree.Sound context known own)
    (id : ClassId) :
    ∀ candidate ∈ tree.constructors id, candidate.target.Within known tree := by
  intro candidate isCandidate
  obtain ⟨method, isMethod, rfl⟩ := List.mem_map.mp isCandidate
  exact (sound.methods id method (List.mem_of_mem_filter isMethod)).1

/-- The functions with a name are in the tree. -/
theorem functionsNamed_inside
    {name : String} :
    ∀ id ∈ tree.functionsNamed name, id.index < tree.functions.size := by
  intro id isFound
  obtain ⟨index, isIndex, found⟩ := List.mem_filterMap.mp isFound
  split at found
  · split at found
    · cases found
      exact Nat.lt_of_le_of_lt (Id.index_ofIndex_le index) (List.mem_range.mp isIndex)
    · cases found
  · cases found

end Tree

/-- A native that is resolved is one that the host offers. -/
theorem Registry.resolve?_offered
    {registry : Registry}
    {types : List Ty}
    {ids : List NativeId}
    {id : NativeId}
    {result : Ty}
    (resolved : registry.resolve? types ids = some (.ok (id, result))) :
    (registry.native? id).isSome := by
  induction ids with
  | nil => cases resolved
  | cons first others inductionHypothesis =>
      unfold Registry.resolve? at resolved
      split at resolved
      · exact inductionHypothesis resolved
      · next native isNative =>
          split at resolved
          · cases resolved
            exact isNative ▸ rfl
          · split at resolved
            · next accepted isAccepted =>
                cases resolved
                exact inductionHypothesis isAccepted
            · cases resolved

/-- Expressions of a list that is no longer than the text read so far. -/
structure CompileState.HasExprs
    (context : CompileContext) (state : CompileState) (ids : List ExprId) :
    Prop where
  has : ∀ id ∈ ids, state.HasExpr id
  short : context.Ended → ids.length ≤ state.position

namespace CompileState.HasExprs

variable {context : CompileContext} {known : NativeId → Prop} {own : Nat}
  {before after : CompileState}
  {ids : List ExprId}

/-- No expressions. -/
theorem nil : before.HasExprs context [] :=
  ⟨nofun, fun _ => Nat.zero_le _⟩

/-- Added expressions stay there. -/
theorem mono
    (has : before.HasExprs context ids)
    (onward : before.Onward after) :
    after.HasExprs context ids :=
  ⟨onward.hasExprs has.has, fun ended => Nat.le_trans (has.short ended) onward.position⟩

/-- The list is no longer than the text. -/
theorem limit
    (has : before.HasExprs context ids)
    (ready : before.Ready context known own) :
    Tree.Short context ids.length :=
  fun ended => Nat.le_trans (has.short ended) ready.inside

/-- One more expression in front of a token that is consumed. -/
theorem snoc
    {id : ExprId}
    {position : Nat}
    (has : before.HasExprs context ids)
    (added : before.HasExpr id)
    (strictly : context.Ended → before.position < position) :
    CompileState.HasExprs context ⟨position, before.tree, before.scope⟩ (ids ++ [id]) where
  has := List.forall_mem_append.mpr ⟨has.has, List.forall_mem_singleton.mpr added⟩
  short ended := by
    rw [List.length_append, List.length_singleton]
    exact Nat.lt_of_le_of_lt (has.short ended) (strictly ended)

end CompileState.HasExprs

/-- A literal outside all functions is there, whatever the scope is. -/
theorem Tree.StandsAlone.hasExpr
    {state : CompileState}
    {id : ExprId}
    (stands : state.tree.StandsAlone id)
    (literal : state.tree.Fits → ∃ value, (state.tree.expr id).kind = .literal value) :
    state.HasExpr id := by
  refine ⟨stands.inside, fun fits slot reads => absurd reads (stands.reads fits slot),
    fun final whole settles => ?_⟩
  obtain ⟨value, isLiteral⟩ := literal (settles.grows.fits whole.fits)
  rw [← settles.grows.expr stands.inside] at isLiteral
  exact mayEvaluate_literal (Nat.lt_of_lt_of_le stands.inside settles.grows.exprs_size) isLiteral

namespace Compile.Builds

variable {context : CompileContext} {known : NativeId → Prop} {own : Nat}
  {state : CompileState}

/-- The types of expressions are read from the tree. -/
theorem typesOf_run
    (ids : List ExprId) :
    ids.mapM typeOf context state = .ok (ids.map fun id => (state.tree.expr id).ty, state) := by
  induction ids with
  | nil => rfl
  | cons id ids inductionHypothesis =>
      rw [List.mapM_cons]
      change (ids.mapM typeOf context state >>= fun result => _) = _
      rw [inductionHypothesis]
      rfl

/-! ## Members -/

/-- What follows a check of a member; behind it, the class of the scope may use the member. -/
theorem admitting
    {α : Type}
    {owner : ClassId}
    {visibility : Visibility}
    {place : Span}
    {post : CompileState → α → Prop}
    {next : Unit → Compile α}
    (rest : state.tree.admits state.scope.owner owner visibility = true →
      Builds context known own state post (next ())) :
    Builds context known own state post (checkAccess owner visibility place >>= next) := by
  unfold checkAccess
  simp only [bind_assoc]
  refine reading rfl ?_
  split
  · exact failedAtThen
  · next admits => exact reading rfl (rest (by simpa using admits))

/-- The receiver of a class. -/
theorem addThis
    (owner : ClassId)
    (place : Span) :
    Builds context known own state
      (fun after id => after.HasOperand id ∧
        (after.tree.Fits → (after.tree.expr id).ty = .object (state.tree.classDef owner).name))
      (Compile.addThis owner place) := by
  unfold Compile.addThis
  refine reading rfl (weaken (addOperand_added (.plain rfl nofun fun _ => trivial) ?_)
    fun after id _ added => ?_)
  · rintro _ ⟨⟩
  · exact ⟨added.2, fun fits => congrArg Expr.ty (added.1.node fits)⟩

/-- A field that is accessed. -/
theorem fieldAccess?
    {object : Option ExprId}
    {id : ClassId}
    {name : String}
    {place : Span}
    (inside : id.index < state.tree.classes.size)
    (isObject : ∀ value ∈ object, state.HasExpr value ∧
      (state.tree.Fits → state.tree.ClassOf (state.tree.expr value).ty id)) :
    Builds context known own state (fun after found => ∀ value ∈ found, after.HasOperand value)
      (Compile.fieldAccess? object id name place) := by
  unfold Compile.fieldAccess?
  refine withReady fun ready => reading rfl ?_
  dsimp only
  split
  · next index owner field found =>
      have isField : Compile.instanceField? state.tree id name = some (index, owner, field) := by
        split at found
        · exact found
        · cases found
      have isFound := Compile.instanceField?_found isField
      refine admitting fun admits => ?_
      have access {between : CompileState} {value : ExprId} (onward : state.Onward between)
          (has : between.HasExpr value)
          (isClass : between.tree.Fits → between.tree.ClassOf (between.tree.expr value).ty id) :
          Builds context known own between
            (fun after found => ∀ value ∈ found, after.HasOperand value)
            (do
              let whole := (← spanOf value).merge place
              return some (← Compile.addExpr (.field value (Word.ofNat index)) field.ty whole)) := by
        refine reading rfl (bind (addOperand ?_ ?_) fun after added _ isAdded => pure ?_)
        · refine ⟨List.forall_mem_singleton.mpr has, nofun, trivial, fun _ => Nat.zero_le _,
            fun fits => ?_, trivial, fun _ => trivial, fun final whole settles => ?_⟩
          · obtain ⟨className, isObject, isNamed⟩ := isClass fits
            have few := (List.getElem?_eq_some_iff.mp isFound.1).1
            exact ⟨className, id, isObject, isNamed,
              Nat.lt_of_le_of_lt (@Id.index_ofIndex_le .locals index)
                (Nat.lt_of_lt_of_le few (onward.tree.grows.instanceFields id))⟩
          · have isLater := (isClass (settles.grows.fits whole.fits)).mono settles.grows
            rw [← settles.grows.expr has.1] at isLater
            rw [onward.scope.owner]
            exact (onward.settles.trans settles).mayName_field whole ready.tree.parents inside
              isLater isField admits
        · rintro _ ⟨⟩
        · rintro _ ⟨⟩
          exact isAdded
      cases object with
      | some value =>
          obtain ⟨has, isClass⟩ := isObject value rfl
          exact reading rfl (access (.refl _) has isClass)
      | none =>
          refine bind (addThis id place) fun between this onward isThis => ?_
          refine access onward isThis.1.1 fun fits => ⟨_, isThis.2 fits, ?_⟩
          have grows := onward.tree.grows
          exact grows.classNamed? (ready.tree.named (grows.fits fits) id inside)
  · refine reading rfl (reading rfl ?_)
    split
    · next index owner field found =>
        have isFound := Compile.staticField?_found found
        refine admitting fun admits =>
          bind (addOperand ?_ ?_) fun after added _ isAdded => pure ?_
        · exact ⟨nofun, nofun, Tree.inside_of_static isFound, fun _ => Nat.zero_le _,
            fun _ => trivial, trivial, fun _ => trivial,
            fun final whole settles => settles.mayName_static whole isFound admits⟩
        · rintro _ ⟨⟩
        · rintro _ ⟨⟩
          exact isAdded
    · exact pure nofun

/-! ## Calls -/

section Calls

variable {arguments : List ExprId} {post : CompileState → ExprId → Prop}

/-- What follows the selection of a candidate. -/
theorem selecting
    {candidates : List MethodImpl}
    {place : Span}
    {next : Overload → Compile ExprId}
    (within : ∀ target ∈ candidates, target.Within known state.tree)
    (has : state.HasExprs context arguments)
    (rest : ∀ overload, state.tree.Selected context known candidates arguments overload →
      Builds context known own state post (next overload)) :
    Builds context known own state post
      (selectOverload candidates (arguments.map fun id => (state.tree.expr id).ty) place
        >>= next) := by
  refine withReady fun ready => ?_
  unfold selectOverload
  simp only [bind_assoc]
  refine reading rfl (reading rfl (checking fun overload resolved => rest overload ?_))
  exact ready.tree.selected within (has.limit ready) resolved

/-- The arguments of a call with the defaults of a selected candidate. -/
theorem selected_has
    {candidates : List MethodImpl}
    {overload : Overload}
    (has : state.HasExprs context arguments)
    (selected : state.tree.Selected context known candidates arguments overload) :
    ∀ id ∈ arguments ++ overload.defaults, state.HasExpr id := by
  intro id isMember
  exact (List.mem_append.mp isMember).elim (has.has id) fun isDefault =>
    (selected.defaults id isDefault).hasExpr fun fits => selected.literals fits id isDefault

/-- The call of a method. -/
theorem methodCall
    {object : ExprId}
    {id : ClassId}
    {name : String}
    {place : Span}
    (hasObject : state.HasExpr object)
    (isClass : state.tree.Fits → state.tree.ClassOf (state.tree.expr object).ty id)
    (has : state.HasExprs context arguments) :
    Builds context known own state CompileState.HasOperand
      (Compile.methodCall object id name place arguments) := by
  refine withReady fun ready => ?_
  have candidates := ready.tree.methodCandidates id name
  unfold Compile.methodCall
  refine reading (typesOf_run arguments) (reading rfl ?_)
  dsimp only
  split
  · exact failedAtThen
  · refine selecting ?_ has fun overload selected => requiring fun chosen isChosen => ?_
    · intro target isTarget
      obtain ⟨candidate, isCandidate, rfl⟩ := List.mem_map.mp isTarget
      exact (candidates candidate isCandidate).target
    · have arguments := selected_has has selected
      have chosenSound := candidates chosen (List.mem_of_find?_eq_some isChosen)
      have isTarget : chosen.target = overload.target := by simpa using List.find?_some isChosen
      obtain ⟨method, isMethod, isOther, isSlot, isImplementation, isVisibility⟩ :=
        chosenSound.method
      rw [isTarget] at isImplementation
      refine admitting fun admits => reading rfl (behind fun whole later further => ?_)
      refine addOperand ?_ (by rintro _ ⟨⟩)
      refine
        { children := List.forall_mem_cons.mpr ⟨hasObject, arguments⟩
          slot := nofun
          refers := ⟨chosenSound.slot, selected.within⟩
          short := selected.short
          meets := fun fits => ?_
          apt := fun fits => ⟨id, isClass fits, chosen.owner, chosenSound.inherits, method, isMethod,
            isOther, isSlot, isImplementation⟩
          operates := fun _ => trivial
          access := fun final whole settles => ?_ }
      · cases isTarget : overload.target with
        | user function => exact selected.accepts fits function isTarget
        | native id => trivial
      · have isLater := (isClass (settles.grows.fits whole.fits)).mono settles.grows
        rw [← settles.grows.expr hasObject.1] at isLater
        rw [← isVisibility] at admits
        rw [← isSlot, ← isImplementation]
        exact settles.mayName_method isLater chosenSound.inherits isMethod isOther admits

/-- A call without a receiver that is written down. -/
theorem unqualifiedCall
    {name : String}
    {place : Span}
    (has : state.HasExprs context arguments) :
    Builds context known own state CompileState.HasOperand
      (Compile.unqualifiedCall name place arguments) := by
  refine withReady fun ready => ?_
  unfold Compile.unqualifiedCall
  refine reading (typesOf_run arguments) (behind fun whole position forth => reading rfl ?_)
  dsimp only
  have onward := CompileState.Onward.ofPosition forth
  have has' := has.mono onward
  split
  on_goal 1 =>
    rename_i id isReceiver
    refine reading rfl ?_
    split
    · refine bind (addThis id place) fun between this further isThis => ?_
      refine methodCall isThis.1.1 (fun fits => ⟨_, isThis.2 fits, ?_⟩) (has.mono (onward.trans further))
      have grows := further.tree.grows
      have isOwner : id ∈ state.scope.owner := by
        split at isReceiver
        · exact isReceiver
        · cases isReceiver
      exact grows.classNamed? (ready.tree.named (grows.fits fits) id (ready.owner id isOwner))
  -- Without a receiver, or without a method of the name, the call goes elsewhere.
  all_goals
    refine withReady fun ready => reading rfl ?_
    split
    · next found resolved =>
        refine checking fun accepted isAccepted => ?_
        obtain ⟨native, result⟩ := accepted
        subst isAccepted
        refine addOperand ?_ (by rintro _ ⟨⟩)
        exact
          { children := has'.has
            slot := by rintro _ ⟨⟩
            refers := ready.offers.natives native (Registry.resolve?_offered resolved)
            short := has'.limit ready
            meets := fun _ => trivial
            apt := trivial
            operates := fun _ => trivial
            access := .ofOther rfl }
    · refine reading rfl ?_
      split
      · exact failedAtThen
      · refine selecting ?_ has' fun overload selected => ?_
        · intro target isTarget
          obtain ⟨function, isFunction, rfl⟩ := List.mem_map.mp isTarget
          exact Tree.functionsNamed_inside function isFunction
        · split
          · next function isTarget =>
              refine addOperand ?_ (by rintro _ ⟨⟩)
              exact
                { children := selected_has has' selected
                  slot := by rintro _ ⟨⟩
                  refers := by
                    have within := selected.within
                    rwa [isTarget] at within
                  short := selected.short
                  meets := fun fits => selected.accepts fits function isTarget
                  apt := trivial
                  operates := fun _ => trivial
                  access := .ofOther rfl }
          · exact failedAt

/-- The construction of an instance. -/
theorem construction
    {id : ClassId}
    {place : Span}
    (inside : id.index < state.tree.classes.size)
    (has : state.HasExprs context arguments) :
    Builds context known own state CompileState.HasOperand
      (Compile.construction id arguments place) := by
  refine withReady fun ready => ?_
  unfold Compile.construction
  refine reading rfl (reading rfl ?_)
  dsimp only
  split
  · split
    · exact failedAtThen
    · refine addOperand ?_ (by rintro _ ⟨⟩)
      exact
        { children := has.has
          slot := nofun
          refers := ⟨inside, nofun⟩
          short := has.limit ready
          meets := fun _ => trivial
          apt := trivial
          operates := fun _ => trivial
          access := .ofOther rfl }
  · refine reading (typesOf_run arguments) (reading rfl (reading rfl ?_))
    split
    · exact failedAt
    · next overload resolved =>
        have selected := ready.tree.selected
          (List.forall_mem_map.mpr (ready.tree.constructors id)) (has.limit ready) resolved
        split
        · next chosen isChosen =>
          obtain ⟨method, isMethod, rfl⟩ := List.mem_map.mp (List.mem_of_find?_eq_some isChosen)
          obtain ⟨isMethod, isNamed⟩ := List.mem_filter.mp isMethod
          have isTarget : method.implementation = overload.target := by
            simpa using List.find?_some isChosen
          refine admitting fun admits => addOperand ?_ (by rintro _ ⟨⟩)
          refine
            { children := selected_has has selected
              slot := nofun
              refers := ⟨inside, ?_⟩
              short := selected.short
              meets := fun fits => ?_
              apt := trivial
              operates := fun _ => trivial
              access := fun final whole settles => ?_ }
          · rintro _ ⟨⟩
            exact selected.within
          · cases isTarget : overload.target with
            | user function => exact selected.accepts fits function isTarget
            | native id => trivial
          · rw [← isTarget]
            exact settles.mayName_new isMethod (by simpa using isNamed) admits
        · next noneChosen =>
          -- The selected implementation is one of those that are compared with it.
          obtain ⟨candidate, isCandidate, isTarget⟩ := List.mem_map.mp selected.candidate
          exact absurd (beq_iff_eq.mpr isTarget) (List.find?_eq_none.mp noneChosen candidate isCandidate)

end Calls

/-- The arguments of a call in parentheses. -/
theorem arguments
    {nested : Compile ExprId}
    (builds : ∀ state, Builds context known own state CompileState.HasExpr nested) :
    Builds context known own state (CompileState.HasExprs context) (Compile.arguments nested) := by
  unfold Compile.arguments
  refine expecting fun position forth _ => eating (fun position further _ => ?_) ?_
  · exact pure .nil
  · refine loop (H := CompileState.HasExprs context) .nil fun between collected _ has => ?_
    refine bind (builds between) fun after id onward added => ?_
    have has := has.mono onward
    refine eating (fun position forth strictly => pure (has.snoc added strictly)) ?_
    exact expecting fun position forth strictly => pure (has.snoc added strictly)

end Compile.Builds

end BotScript
