import BotScript.Proofs.JumpTargets

namespace BotScript

/-!
# Bodies of functions

The passes of a compilation only add statements, and a function gets a body when
the body is compiled.  Then no jump leads out of the body, and if the function has
a result, the body always leaves it; later statements change nothing about this.
-/

/-- Statements are only added, and no function gets another body. -/
structure CompileState.Retains (before after : CompileState) : Prop where
  stmts :
    ∀ (index : Nat) node,
      before.tree.stmts[index]? = some node → after.tree.stmts[index]? = some node
  bodies :
    ∀ function ∈ after.tree.functions, ∀ body, function.body = some body →
      ∃ earlier ∈ before.tree.functions,
        earlier.body = some body ∧ earlier.result = function.result

namespace CompileState.Retains

variable {before after : CompileState}

instance : IsPreorder CompileState Retains where
  refl _ := ⟨fun _ _ => id, fun function isThere _ isBody => ⟨function, isThere, isBody, rfl⟩⟩
  trans _ _ _ first second :=
    { stmts := fun index node found => second.stmts index node (first.stmts index node found)
      bodies := fun function isThere body isBody => by
        obtain ⟨middle, isMiddle, middleBody, result⟩ := second.bodies function isThere body isBody
        obtain ⟨earlier, isEarlier, earlierBody, earlierResult⟩ :=
          first.bodies middle isMiddle body middleBody
        exact ⟨earlier, isEarlier, earlierBody, earlierResult.trans result⟩ }

/-- The statements and the functions are the same. -/
theorem ofSame
    (stmts : after.tree.stmts = before.tree.stmts)
    (functions : after.tree.functions = before.tree.functions) :
    Retains before after :=
  ⟨fun _ _ found => stmts ▸ found,
    fun function isThere _ isBody => ⟨function, functions ▸ isThere, isBody, rfl⟩⟩

end CompileState.Retains

namespace Compile

open Preserves (andThen repeats)

variable {α β : Type}

/-- A step that only adds statements and gives no function a body. -/
abbrev Prepares (step : Compile α) : Prop :=
  Preserves CompileState.Retains step

/-- A step that adds no statement and no function. -/
instance (priority := low) Preserves.ofQuiet (step : Compile α) [quiet : Quiet step] :
    Prepares step where
  kept _ _ _ _ runs :=
    have kept := quiet.kept _ _ _ _ runs
    .ofSame kept.stmts kept.functions

instance Preserves.forM {R : CompileState → CompileState → Prop} [IsPreorder CompileState R]
    (step : α → Compile PUnit) (entries : List α) [∀ entry, Preserves R (step entry)] :
    Preserves R (entries.forM step) := by
  induction entries with
  | nil => exact Preserves.pure _
  | cons entry entries inductionHypothesis =>
      rw [List.forM_eq_forM, List.forM_cons]
      exact andThen fun _ => inductionHypothesis

instance Preserves.foldlM {R : CompileState → CompileState → Prop} [IsPreorder CompileState R]
    (step : β → α → Compile β) (value : β) (entries : List α)
    [∀ value entry, Preserves R (step value entry)] :
    Preserves R (entries.foldlM step value) := by
  induction entries generalizing value with
  | nil => exact Preserves.pure _
  | cons entry entries inductionHypothesis =>
      rw [List.foldlM_cons]
      exact andThen fun next => inductionHypothesis next

instance Preserves.mapM {R : CompileState → CompileState → Prop} [IsPreorder CompileState R]
    (step : α → Compile β) (entries : List α) [∀ entry, Preserves R (step entry)] :
    Preserves R (entries.mapM step) := by
  induction entries with
  | nil => exact Preserves.pure _
  | cons entry entries inductionHypothesis =>
      rw [List.mapM_cons]
      infer_instance

/-! ## The first two passes -/

instance (change : Scope → Scope) : Prepares (modifyScope change) where
  kept _ _ _ _ runs := by
    cases runs
    exact .ofSame rfl rfl

instance (position : Nat) : Prepares (moveTo position) where
  kept _ _ _ _ runs := by
    cases runs
    exact .ofSame rfl rfl

instance (id : ClassId) (change : ClassDef → ClassDef) : Prepares (modifyClass id change) where
  kept _ _ _ _ runs := by
    unfold modifyClass at runs
    obtain ⟨_, _, looked, runs⟩ := bind_ok runs
    cases looked
    cases runs
    exact .ofSame rfl rfl

/-- What follows a change of the tree that adds no statement and no function. -/
theorem Prepares.changing
    {change : Tree → Tree}
    {next : Tree → Unit → Compile β}
    (same : ∀ tree, (change tree).stmts = tree.stmts ∧ (change tree).functions = tree.functions)
    (rest : ∀ tree, Prepares (next tree ())) :
    Prepares (tree >>= fun tree => setTree (change tree) >>= next tree) where
  kept _ before _ _ runs := by
    obtain ⟨_, _, looked, runs⟩ := bind_ok runs
    cases looked
    obtain ⟨_, _, set, runs⟩ := bind_ok runs
    cases set
    have changed : CompileState.Retains before { before with tree := change before.tree } :=
      .ofSame (same _).1 (same _).2
    exact trans_of _ changed ((rest _).kept _ _ _ _ runs)

instance : Prepares scanClass := by
  have added (name : String) (place : Span) (parent : Option (String × Span)) (body : Nat) :
      Prepares (do
        let tree ← tree
        setTree { tree with classes := tree.classes.push { name, span := place } }
        return (⟨Id.ofIndex tree.classes.size, parent, body⟩ : ClassItem)) :=
    Prepares.changing (fun _ => ⟨rfl, rfl⟩) fun _ => inferInstance
  have opened (name : String) (place : Span) (parent : Option (String × Span)) :
      Prepares (do
        if !(← at' .openBlock) then fail .openBlock
        let body := (← get).position
        skipBlock
        let tree ← tree
        setTree { tree with classes := tree.classes.push { name, span := place } }
        return (⟨Id.ofIndex tree.classes.size, parent, body⟩ : ClassItem)) := by
    refine andThen fun isOpen => ?_
    dsimp only
    split
    · infer_instance
    · exact andThen fun state => andThen fun _ => added name place parent _
  unfold scanClass
  refine andThen fun name => ?_
  obtain ⟨name, place⟩ := name
  refine andThen fun _ => andThen fun _ => ?_
  dsimp only
  split
  · infer_instance
  · refine andThen fun extended => ?_
    split
    · exact andThen fun parent => opened name place parent
    · exact andThen fun parent => opened name place parent

instance : Prepares scan := by
  unfold scan
  refine repeats fun outline => andThen fun isEnd => ?_
  dsimp only
  split
  · infer_instance
  · refine andThen fun isClosed => ?_
    split
    · infer_instance
    · refine andThen fun state => andThen fun _ => andThen fun isClass => ?_
      split
      · infer_instance
      · infer_instance

instance (items : List ClassItem) : Prepares (resolveParents items) := by
  have parents : Prepares (items.forM fun item => do
      match item.parent with
      | some (name, place) =>
          let parent ← requireAt .undefinedClass place (← resolveClass? name)
          modifyClass item.id fun entry => { entry with parent := some parent }
      | none => pure ()) := by
    refine @Preserves.forM _ _ _ _ _ fun item => ?_
    split <;> infer_instance
  unfold resolveParents
  refine andThen fun _ => andThen fun tree => @Preserves.forM _ _ _ _ _ fun item => ?_
  infer_instance

instance (ty : Ty) : Prepares (parameterDefault ty) := by
  unfold parameterDefault
  refine andThen fun isMissing => ?_
  dsimp only
  split
  · infer_instance
  · refine andThen fun _ => andThen fun value => andThen fun _ => andThen fun place => ?_
    refine andThen fun source => andThen fun _ => ?_
    split
    · infer_instance
    · infer_instance

instance : Prepares parameters := by
  unfold parameters
  refine andThen fun isEmpty => ?_
  dsimp only
  split
  · infer_instance
  · refine repeats fun params => andThen fun typeSpan => andThen fun base => ?_
    split
    · infer_instance
    · refine andThen fun name => ?_
      obtain ⟨name, place⟩ := name
      refine andThen fun ty => ?_
      dsimp only
      split
      · infer_instance
      · refine andThen fun hasDefault => ?_
        split
        · infer_instance
        · split <;> infer_instance

/-- Interning a method key adds no statement and no function. -/
theorem internMethodKey_same
    (tree : Tree)
    (key : String) :
    (tree.internMethodKey key).2.stmts = tree.stmts ∧
      (tree.internMethodKey key).2.functions = tree.functions := by
  unfold Tree.internMethodKey
  split <;> exact ⟨rfl, rfl⟩

instance (modifiers : Modifiers) (result : Ty) (owner : Option ClassId) (name : String)
    (place : Span) : Prepares (declareSignature modifiers result owner name place) where
  kept context before value after runs := by
    have listed (current : Tree) (key : String) (id : FuncId) :
        Prepares (do
          match owner with
          | some owner =>
              let isConstructor := (current.classDef owner).name == name
              let slot ←
                if isConstructor then pure none
                else
                  let (slot, tree) := (← tree).internMethodKey key
                  setTree tree
                  pure (some slot)
              modifyClass owner fun entry =>
                { entry with
                  methods := entry.methods ++ [⟨name, .user id, modifiers.visibility, slot⟩] }
          | none => pure ()
          return id) := by
      split
      · next owner =>
          have interned :
              Prepares (do
                let (slot, tree) := (← tree).internMethodKey key
                setTree tree
                let slot ← pure (some slot)
                modifyClass owner fun entry =>
                  { entry with
                    methods := entry.methods ++ [⟨name, .user id, modifiers.visibility, slot⟩] }
                return id) :=
            Prepares.changing (fun tree => internMethodKey_same tree key) fun tree => inferInstance
          dsimp only
          split
          · infer_instance
          · exact interned
      · infer_instance
    unfold declareSignature at runs
    obtain ⟨_, first, opened, runs⟩ := bind_ok runs
    obtain ⟨params, second, taken, runs⟩ := bind_ok runs
    obtain ⟨_, _, looked, runs⟩ := bind_ok runs
    cases looked
    dsimp only at runs
    split at runs
    · obtain ⟨_, _, fails, -⟩ := bind_ok runs
      cases fails
    · obtain ⟨_, third, set, runs⟩ := bind_ok runs
      cases set
      have read : before.Retains second :=
        trans_of _ (Preserves.kept _ _ _ _ opened) (Preserves.kept _ _ _ _ taken)
      -- The function that is added has no body yet.
      have added (function : FunctionDef) (bare : function.body = none) :
          second.Retains
            { second with
              tree :=
                { second.tree with functions := second.tree.functions.push function } } := by
        refine ⟨fun _ _ => id, fun other isThere body isBody => ?_⟩
        obtain old | rfl := Array.mem_push.mp isThere
        · exact ⟨other, old, isBody, rfl⟩
        · rw [bare] at isBody
          cases isBody
      exact trans_of _ (trans_of _ read (added _ rfl)) ((listed _ _ _).kept _ _ _ _ runs)

instance (owner : ClassId) (modifiers : Modifiers) (base : Ty) (first : String × Span) :
    Prepares (declareFields owner modifiers base first) := by
  unfold declareFields
  dsimp only
  split
  · infer_instance
  · refine @Preserves.bind _ _ _ _ _ _ (repeats fun turn => ?_) inferInstance
    obtain ⟨⟨name, place⟩, initials⟩ := turn
    refine andThen fun declared => ?_
    obtain ⟨ty, limits⟩ := declared
    refine andThen fun tree => ?_
    dsimp only
    split
    · infer_instance
    · refine andThen fun _ => andThen fun isSet => ?_
      split <;> infer_instance

instance (item : ClassItem) (pending : Pending) : Prepares (declareMembers item pending) := by
  unfold declareMembers
  refine andThen fun tree => andThen fun _ => andThen fun _ => repeats fun pending => ?_
  refine andThen fun isClosed => ?_
  dsimp only
  split
  · infer_instance
  · refine andThen fun isEnd => ?_
    split
    · infer_instance
    · refine andThen fun modifiers => andThen fun text => andThen fun next => ?_
      have member (ty : Ty) :
          Prepares (do
            let (name, place) ← expectName .noVariable
            if ← at' .openPar then
              let function ← declareSignature modifiers ty (some item.id) name place
              let body ← skipBody
              return (Turn.again { pending with bodies := pending.bodies ++ [⟨function, body⟩] }
                : Turn Pending Pending)
            else
              let initials ← declareFields item.id modifiers ty (name, place)
              return .again { pending with initials := pending.initials ++ initials }) := by
        refine andThen fun name => ?_
        obtain ⟨name, place⟩ := name
        infer_instance
      split
      · exact andThen member
      · exact andThen member

instance (start : Nat) : Prepares (declareFunction start) := by
  have declared (modifiers : Modifiers) (result : Ty) (owner : Option ClassId)
      (name : String) (place : Span) :
      Prepares (do
        if !(← at' .openPar) then fail .openPar
        let function ← declareSignature modifiers result owner name place
        return (⟨function, ← skipBody⟩ : PendingBody)) := by
    refine andThen fun isOpen => ?_
    dsimp only
    split <;> infer_instance
  unfold declareFunction
  refine andThen fun _ => andThen fun modifiers => andThen fun result => andThen fun first => ?_
  obtain ⟨first, firstSpan⟩ := first
  refine andThen fun isMethod => ?_
  dsimp only
  split
  · refine andThen fun current => andThen fun owner => andThen fun name => ?_
    obtain ⟨name, place⟩ := name
    exact andThen fun named => declared modifiers result named.1 named.2.1 named.2.2
  · exact andThen fun named => declared modifiers result named.1 named.2.1 named.2.2

instance (initial : PendingInitial) : Prepares (compileInitial initial) := by
  unfold compileInitial
  refine andThen fun tree => andThen fun _ => andThen fun _ => andThen fun value => ?_
  refine andThen fun _ => andThen fun isEnd => ?_
  dsimp only
  split <;> infer_instance

end Compile

/-! ## Bodies -/

namespace Tree

/-- A statement that always leaves its function does so among further statements. -/
theorem leavesWithin_mono
    {before after : Tree}
    (stays : ∀ (index : Nat) node,
      before.stmts[index]? = some node → after.stmts[index]? = some node)
    {bound : Nat}
    {id : StmtId}
    (leaves : before.leavesWithin bound id = true) :
    after.leavesWithin bound id = true := by
  induction bound generalizing id with
  | zero => cases leaves
  | succ bound inductionHypothesis =>
      unfold leavesWithin at leaves
      cases found : before.stmt? id with
      | none =>
          rw [Tree.stmt, found] at leaves
          cases leaves
      | some node =>
          have same : after.stmt id = before.stmt id := by
            rw [Tree.stmt, Tree.stmt, found, Tree.stmt?, stays _ _ found]
          unfold leavesWithin
          rw [same]
          split at leaves
          · rfl
          · rfl
          · obtain ⟨part, isPart, partLeaves⟩ := List.any_eq_true.mp leaves
            exact List.any_eq_true.mpr ⟨part, isPart, inductionHypothesis partLeaves⟩
          · obtain ⟨whenTrue, whenFalse⟩ := Bool.and_eq_true_iff.mp leaves
            exact Bool.and_eq_true_iff.mpr
              ⟨inductionHypothesis whenTrue, inductionHypothesis whenFalse⟩
          · next body clauses final _ =>
            refine Bool.or_eq_true_iff.mpr ((Bool.or_eq_true_iff.mp leaves).imp ?_ ?_)
            · intro all
              obtain ⟨some, every⟩ := Bool.and_eq_true_iff.mp all
              obtain ⟨part, isPart, partLeaves⟩ := List.any_eq_true.mp some
              refine Bool.and_eq_true_iff.mpr
                ⟨List.any_eq_true.mpr ⟨part, isPart, inductionHypothesis partLeaves⟩, ?_⟩
              exact List.all_eq_true.mpr fun clause isClause =>
                inductionHypothesis (List.all_eq_true.mp every clause isClause)
            · cases final with
              | none => exact fun never => never
              | some part => exact inductionHypothesis
          · cases leaves

/--
No jump leads out of the body of a function, and the body always leaves the
function if that has a result.
-/
structure Closes (tree : Tree) (result : Ty) (body : StmtId) : Prop where
  targeted : tree.Targeted [] body
  leaves : result.isVoid = false → tree.Leaves body

/-- The bodies of all functions are closed, whatever statements are added. -/
def Structured (tree : Tree) : Prop :=
  ∀ function ∈ tree.functions, ∀ body, function.body = some body →
    ∀ later : Tree, later.Completes tree.stmts → later.Closes function.result body

end Tree

namespace CompileState

variable {before after : CompileState}

/-- Bodies stay closed. -/
theorem Retains.structured
    (retains : before.Retains after)
    (structured : before.tree.Structured) :
    after.tree.Structured := by
  intro function isThere body isBody later completes
  obtain ⟨earlier, isEarlier, sameBody, result⟩ := retains.bodies function isThere body isBody
  exact result ▸ structured earlier isEarlier body sameBody later (completes.mono retains.stmts)

end CompileState

namespace Compile

variable {context : CompileContext} {state after : CompileState}

/-- The body of a function is closed once it is compiled. -/
theorem compileBody_structured
    {pending : PendingBody}
    (structured : state.tree.Structured)
    (runs : compileBody pending context state = .ok ((), after)) :
    after.tree.Structured := by
  unfold compileBody at runs
  obtain ⟨_, _, looked, runs⟩ := bind_ok runs
  cases looked
  generalize isFunction : state.tree.function pending.function = function at runs
  dsimp only at runs
  obtain ⟨_, _, entered, runs⟩ := bind_ok runs
  cases entered
  obtain ⟨_, declared, declares, runs⟩ := bind_ok runs
  have params := (inferInstance : Quiet (function.params.forM fun param => do
    let _ ← declareVariable param.name param.ty function.span)).kept _ _ _ _ declares
  obtain ⟨_, _, moved, runs⟩ := bind_ok runs
  cases moved
  obtain ⟨body, last, taken, runs⟩ := bind_ok runs
  obtain ⟨flows, steers⟩ := Guides.functionBlock _ _ taken
  obtain ⟨_, _, looked, runs⟩ := bind_ok runs
  cases looked
  obtain ⟨_, _, left, runs⟩ := bind_ok runs
  cases left
  obtain ⟨_, _, looked, runs⟩ := bind_ok runs
  cases looked
  have empty : last.scope.breakables = [] := by
    rw [flows.breakables]
    exact params.breakables
  have functions : last.tree.functions = state.tree.functions :=
    flows.functions.trans params.functions
  have stays (index : Nat) (node : Stmt) (found : state.tree.stmts[index]? = some node) :
      last.tree.stmts[index]? = some node := by
    refine flows.stmts index node ?_
    change declared.tree.stmts[index]? = some node
    rwa [params.stmts]
  dsimp only at runs
  split at runs
  · obtain ⟨_, _, fails, -⟩ := bind_ok runs
    cases fails
  next accepted =>
  cases runs
  intro other isThere otherBody isBody later completes
  obtain ⟨index, found⟩ := Array.mem_iff_getElem?.mp isThere
  rw [Array.getElem?_modify] at found
  split at found
  · next isIndex =>
      obtain ⟨old, isOld, rfl⟩ := Option.map_eq_some_iff.mp found
      cases isBody
      have isOld : old = function := by
        rw [← isFunction, Tree.function, Tree.function?, ← functions, isIndex, isOld]
        rfl
      refine ⟨empty ▸ steers later completes, fun hasResult => ?_⟩
      have hasResult : function.result.isVoid = false := isOld ▸ hasResult
      have leaves : last.tree.alwaysLeaves body = true := by simpa [hasResult] using accepted
      have kept : ∀ (index : Nat) node,
          last.tree.stmts[index]? = some node → later.stmts[index]? = some node :=
        completes.stays
      exact ⟨_, Tree.leavesWithin_mono kept leaves⟩
  · have isOther : other ∈ state.tree.functions := functions ▸ Array.mem_of_getElem? found
    exact structured other isOther otherBody isBody later (completes.mono stays)

/-- The bodies of several functions are closed. -/
theorem compileBodies_structured
    {pending : List PendingBody}
    (structured : state.tree.Structured)
    (runs : pending.forM compileBody context state = .ok ((), after)) :
    after.tree.Structured := by
  induction pending generalizing state with
  | nil =>
      cases runs
      exact structured
  | cons body pending inductionHypothesis =>
      obtain ⟨_, between, taken, runs⟩ := bind_ok runs
      exact inductionHypothesis (compileBody_structured structured taken) runs

end Compile

/-- The bodies of all functions of an accepted program are closed. -/
theorem compile_structured
    {registry : Registry}
    {tokens : TokenList}
    {tree : Tree}
    (accepted : compile registry tokens = .ok tree) :
    tree.Structured := by
  unfold compile at accepted
  cases runs : (Compile.program.run ⟨tokens.tokens, registry⟩).run {} with
  | error error =>
      rw [runs] at accepted
      cases accepted
  | ok result =>
      rw [runs] at accepted
      cases accepted
      obtain ⟨tree, final⟩ := result
      change Compile.program ⟨tokens.tokens, registry⟩ {} = .ok (tree, final) at runs
      unfold Compile.program at runs
      obtain ⟨outline, first, scans, runs⟩ := Compile.bind_ok runs
      obtain ⟨_, second, resolves, runs⟩ := Compile.bind_ok runs
      obtain ⟨pending, third, classes, runs⟩ := Compile.bind_ok runs
      obtain ⟨bodies, fourth, functions, runs⟩ := Compile.bind_ok runs
      obtain ⟨_, _, looked, runs⟩ := Compile.bind_ok runs
      cases looked
      obtain ⟨_, fifth, dispatches, runs⟩ := Compile.bind_ok runs
      cases dispatches
      obtain ⟨_, sixth, initials, runs⟩ := Compile.bind_ok runs
      obtain ⟨_, last, compiles, runs⟩ := Compile.bind_ok runs
      cases runs
      have scanned : CompileState.Retains {} first := Compile.Preserves.kept _ _ _ _ scans
      have resolved : first.Retains second := Compile.Preserves.kept _ _ _ _ resolves
      have members : second.Retains third := Compile.Preserves.kept _ _ _ _ classes
      have signatures : third.Retains fourth :=
        (Compile.Preserves.mapM Compile.declareFunction _).kept _ _ _ _ functions
      have dispatched : fourth.Retains
          { fourth with tree := Compile.withDispatchTables fourth.tree } :=
        .ofSame rfl rfl
      have initialized :
          CompileState.Retains { fourth with tree := Compile.withDispatchTables fourth.tree }
            sixth :=
        (Compile.Preserves.forM Compile.compileInitial _).kept _ _ _ _ initials
      have declared := trans_of _ (trans_of _ (trans_of _ scanned resolved) members) signatures
      have prepared := trans_of _ (trans_of _ declared dispatched) initialized
      have bare : Tree.Structured {} := fun _ member =>
        absurd member (Array.not_mem_empty _)
      have structured : sixth.tree.Structured := prepared.structured bare
      exact Compile.compileBodies_structured structured compiles

end BotScript
