import BotScript.Proofs.BuildingExpressions

namespace BotScript

/-!
# Statements that are built

A statement refers to what has been added before it.  Variables are declared in
the scope and never taken out of it, so that what a statement touches is a
variable of the function even when the block that declares it is closed.
-/

/-- A declared variable comes behind the others. -/
structure Scope.Declared
    (name : String) (ty : Ty) (before : Scope) (slot : LocalSlot) (after : Scope) :
    Prop where
  owner : after.owner = before.owner
  inside : before.function ≠ none
  locals : after.locals = before.locals ++ [⟨name, ty⟩]
  slot : slot = Id.ofIndex before.locals.length

/-- A variable is declared behind the others. -/
theorem Scope.declare_ok
    {scope after : Scope}
    {name : String}
    {ty : Ty}
    {slot : LocalSlot}
    (declares : scope.declare name ty = .ok (slot, after)) :
    scope.Declared name ty slot after := by
  obtain ⟨owner, hasThis, function⟩ := scope
  unfold Scope.declare at declares
  dsimp only at declares
  split at declares
  · cases declares
  · split at declares
    · cases declares
    · split at declares
      · cases declares
      · cases declares
        exact ⟨rfl, nofun, by simp [Scope.locals], by simp [Scope.locals]⟩

namespace Scope.Declared

variable {name : String} {ty : Ty} {before after : Scope} {slot : LocalSlot}

/-- A declaration keeps the other variables. -/
theorem goesOn
    (declared : before.Declared name ty slot after) :
    before.Extends after :=
  ⟨declared.locals ▸ List.prefix_append _ _, fun outside => absurd outside declared.inside,
    declared.owner⟩

/-- The slot of a declared variable is one of the variables. -/
theorem slot_lt
    (declared : before.Declared name ty slot after) :
    slot.index < after.locals.length := by
  rw [declared.slot, declared.locals, List.length_append]
  exact Nat.lt_succ_of_le (Id.index_ofIndex_le _)

end Scope.Declared

/-- Catch clauses whose parts have been added. -/
structure CompileState.HasClauses
    (context : CompileContext) (state : CompileState) (clauses : List CatchClause) :
    Prop where
  conditions : ∀ id ∈ clauses.map (·.condition), state.HasExpr id
  bodies : ∀ id ∈ clauses.map (·.body), state.HasStmt id
  short : context.Ended → clauses.length ≤ state.position

namespace Compile.Builds

variable {context : CompileContext} {known : NativeId → Prop} {own : Nat}
  {state : CompileState}

/-- Statements of a list. -/
abbrev HasStmts (state : CompileState) (ids : List StmtId) : Prop :=
  ∀ id ∈ ids, state.HasStmt id

/-- A part that may be there. -/
theorem optional
    {step : Compile StmtId}
    (builds : Builds context known own state CompileState.HasStmt step) :
    Builds context known own state (fun after found => ∀ id ∈ found, after.HasStmt id)
      (some <$> step) := by
  refine map builds fun _ _ _ has => ?_
  rintro _ ⟨⟩
  exact has

/-! ## Declarations of variables -/

/-- Limits behind a declared name. -/
theorem parseLimits :
    Builds context known own state (fun _ _ => True) Compile.parseLimits := by
  unfold Compile.parseLimits
  refine loop (H := fun _ _ => True) trivial fun between limits _ _ => ?_
  refine eating (fun _ _ _ => eating (fun _ _ _ => pure trivial) ?_) (pure trivial)
  exact bind expression fun _ _ _ _ => behind fun _ _ _ => behind fun _ _ _ => pure trivial

/-- The type that a declared name has. -/
theorem declaredType
    (base : Ty) :
    Builds context known own state (fun _ _ => True) (Compile.declaredType base) := by
  unfold Compile.declaredType
  exact bind parseLimits fun _ _ _ _ => pure trivial

/-- A variable is declared behind the others, which adds nothing to the tree. -/
theorem declareVariable
    (name : String)
    (ty : Ty)
    (place : Span) :
    Builds context known own state
      (fun after slot => after.tree = state.tree ∧ state.scope.Declared name ty slot after.scope)
      (Compile.declareVariable name ty place) := by
  unfold Compile.declareVariable
  refine reading rfl (checking fun result declares => ?_)
  obtain ⟨slot, scope⟩ := result
  have declared := Scope.declare_ok declares
  refine ofRun rfl fun ready => ?_
  exact ⟨⟨ready.offers, ready.tree, declared.owner ▸ ready.owner, ready.inside⟩,
    ⟨.refl _, rfl, .refl _, Nat.le_refl _, declared.goesOn⟩, rfl, declared⟩

/-- The value a declared variable starts with. -/
theorem initialValue
    (ty : Ty)
    (place : Span) :
    Builds context known own state (fun after initial => ∀ id ∈ initial, after.HasExpr id)
      (Compile.initialValue ty place) := by
  have assigned (state : CompileState) :
      Builds context known own state (fun after initial => ∀ id ∈ initial, after.HasExpr id) (do
        if ← eat .assign then return some (← Compile.initializer Compile.expression ty)
        else return none) := by
    refine eating (fun _ _ _ => ?_) (pure nofun)
    refine bind (initializer (fun _ => expression) ty) fun _ _ _ has => pure ?_
    rintro _ ⟨⟩
    exact has
  obtain ⟨found, runs, isClass⟩ := classOf?_run context state ty
  unfold Compile.initialValue
  refine reading runs ?_
  dsimp only
  split
  · next id =>
    obtain ⟨className, -, isNamed⟩ := isClass id rfl
    have inside := Tree.classNamed?_inside isNamed
    refine reading rfl ?_
    split
    · refine bind (arguments fun _ => expression) fun after values onward has => ?_
      refine behind fun _ _ forth => bind (construction ?_ (has.mono (.ofPosition forth))) ?_
      · exact Nat.lt_of_lt_of_le inside onward.tree.grows.classes_size
      · refine fun _ _ _ added => pure ?_
        rintro _ ⟨⟩
        exact added.1
    · exact assigned _
  · exact assigned _

/-- Declarations of variables. -/
theorem declarations :
    Builds context known own state HasStmts Compile.declarations := by
  unfold Compile.declarations
  refine reading rfl (bind parseType fun _ base _ _ => ?_)
  dsimp only
  split
  · exact failedAtThen
  · refine loop (H := HasStmts) nofun fun between collected _ has => ?_
    refine behind fun named position forth => bind (declaredType base) fun first declared on _ => ?_
    refine bind (initialValue _ _) fun second initial further hasInitial => ?_
    refine bind (declareVariable _ _ _) fun third slot last ⟨_, isDeclared⟩ =>
      behind fun place _ _ => ?_
    have onward := (on.trans further).trans last
    have has := onward.hasStmts has
    refine bind (addStmt ?_) fun after id further added => ?_
    · refine
        { exprs := fun value isInitial => last.hasExpr (hasInitial value ?_)
          children := nofun
          slot := ?_
          short := fun _ => Nat.zero_le _ }
      · exact Option.mem_toList.mp isInitial
      · rintro _ _ _ ⟨⟩
        exact isDeclared.slot_lt
    · have all := List.forall_mem_append.mpr
        ⟨further.hasStmts has, List.forall_mem_singleton.mpr added⟩
      exact eating (fun _ _ _ => pure all) (pure all)

/-- Whether a declaration starts here. -/
theorem atDeclaration :
    Builds context known own state (fun _ _ => True) Compile.atDeclaration := by
  unfold Compile.atDeclaration
  refine reading rfl ?_
  split
  · exact pure trivial
  · refine behind fun next _ _ => ?_
    split
    · exact atType
    · exact atType
    · exact pure trivial
  · exact pure trivial

/-- A declaration as a statement. -/
theorem declarationStatement :
    Builds context known own state CompileState.HasStmt Compile.declarationStatement := by
  unfold Compile.declarationStatement
  refine reading rfl (bind declarations fun _ collected _ has => behind fun _ _ _ => ?_)
  split
  · next single => exact pure (has single (List.mem_singleton_self _))
  · exact behind fun _ _ _ => addStmt (.plain rfl nofun has)

/-- An expression as a statement. -/
theorem expressionStatement :
    Builds context known own state CompileState.HasStmt Compile.expressionStatement := by
  unfold Compile.expressionStatement
  refine bind expression fun _ value _ has => behind fun _ _ _ => reading rfl ?_
  exact behind fun _ _ _ =>
    addStmt (.plain rfl (List.forall_mem_singleton.mpr has) nofun)

/-- Expressions between commas, behind the start of the text. -/
theorem expressionList
    (behindStart : context.Ended → 0 < state.position) :
    Builds context known own state (CompileState.HasExprs context) Compile.expressionList := by
  unfold Compile.expressionList
  -- The text read so far is longer than the list, so that there is room for its last expression.
  refine loop
    (H := fun state ids => (∀ id ∈ ids, state.HasExpr id) ∧
      (context.Ended → ids.length < state.position)) ⟨nofun, behindStart⟩ ?_
  rintro between collected _ ⟨has, short⟩
  refine bind expression fun after id onward added => ?_
  have all : ∀ other ∈ collected ++ [id], after.HasExpr other :=
    List.forall_mem_append.mpr ⟨onward.hasExprs has, List.forall_mem_singleton.mpr added⟩
  have room (ended : context.Ended) : (collected ++ [id]).length ≤ after.position := by
    rw [List.length_append, List.length_singleton]
    exact Nat.le_trans (short ended) onward.position
  refine eating (fun _ _ strictly => pure ⟨all, fun ended => ?_⟩) (pure ⟨all, room⟩)
  exact Nat.lt_of_le_of_lt (room ended) (strictly ended)

/-- The statements at the start of a counting loop. -/
theorem loopStart
    (behindStart : context.Ended → 0 < state.position) :
    Builds context known own state HasStmts Compile.loopStart := by
  unfold Compile.loopStart
  refine reading rfl ?_
  split
  · exact pure nofun
  · refine bind atDeclaration fun between declares onward _ => ?_
    split
    · exact declarations
    · have behindStart (ended : context.Ended) :=
        Nat.lt_of_lt_of_le (behindStart ended) onward.position
      refine bind (expressionList behindStart) fun after values _ has => ?_
      have has := has.has
      clear * - has
      induction values generalizing after with
      | nil => exact pure nofun
      | cons value values inductionHypothesis =>
          obtain ⟨first, others⟩ := List.forall_mem_cons.mp has
          rw [List.mapM_cons]
          refine bind (M := CompileState.HasStmt) (reading rfl (addStmt ?_))
            fun between id onward added => ?_
          · exact .plain rfl (List.forall_mem_singleton.mpr first) nofun
          · refine bind (inductionHypothesis _ (onward.hasExprs others))
              fun after ids onward has => pure ?_
            exact List.forall_mem_cons.mpr ⟨onward.hasStmt added, has⟩

/-! ## Conditions, jumps and values of cases -/

/-- A condition in parentheses. -/
theorem condition :
    Builds context known own state CompileState.HasExpr Compile.condition := by
  unfold Compile.condition
  refine behind fun _ _ _ => bind expression fun _ value _ has => ?_
  exact behind fun _ _ _ => behind fun _ _ _ => pure has

/-- A thrown exception. -/
theorem throwStatement :
    Builds context known own state CompileState.HasStmt Compile.throwStatement := by
  unfold Compile.throwStatement
  refine reading rfl (behind fun _ _ _ => bind expression fun _ code _ has => reading rfl ?_)
  dsimp only
  split
  · exact reading rfl failedAtThen
  · exact behind fun _ _ _ => behind fun _ _ _ =>
      addStmt (.plain rfl (List.forall_mem_singleton.mpr has) nofun)

/-- What follows the value of a return. -/
private theorem returned
    {start : Span}
    {result : Ty}
    (value : Option ExprId)
    (has : ∀ id ∈ value, state.HasExpr id) :
    Builds context known own state CompileState.HasStmt (do
      match value with
      | some value =>
          if result.isVoid then failAt .badType1 (← spanOf value)
          checkAssignable value result
      | none => if !result.isVoid then failAt .badType1 start
      expectSemicolon
      Compile.addStmt (.returnWith value) (← spanFrom start)) := by
  have ends (position : Nat) :
      Builds context known own ⟨position, state.tree, state.scope⟩ CompileState.HasStmt (do
        expectSemicolon
        Compile.addStmt (.returnWith value) (← spanFrom start)) := by
    refine behind fun _ _ _ => behind fun _ _ _ =>
      addStmt (.plain rfl (fun id isValue => ?_) nofun)
    exact has id (Option.mem_toList.mp isValue)
  cases value with
  | some value =>
      dsimp only
      split
      · exact reading rfl failedAtThen
      · exact behind fun _ _ _ => ends _
  | none =>
      dsimp only
      split
      · exact failedAtThen
      · exact ends _

/-- A return from the function. -/
theorem returnStatement :
    Builds context known own state CompileState.HasStmt Compile.returnStatement := by
  unfold Compile.returnStatement
  refine reading rfl (behind fun _ _ _ => reading rfl (reading rfl ?_))
  dsimp only
  split
  · exact reading rfl (returned none nofun)
  · refine bind (M := fun after value => ∀ id ∈ value, after.HasExpr id)
      (map expression fun _ _ _ has => ?_) fun _ value _ has => returned value has
    rintro _ ⟨⟩
    exact has

/-- A jump out of a loop or switch, or to the next round of a loop. -/
theorem jump
    (isContinue : Bool) :
    Builds context known own state CompileState.HasStmt (Compile.jump isContinue) := by
  have ends (state : CompileState) (start : Span) (label : Option String) :
      Builds context known own state CompileState.HasStmt (do
        checkAt (← spanFrom start) ((← get).scope.checkJump label isContinue)
        expectSemicolon
        Compile.addStmt (if isContinue then .continueTo label else .breakTo label)
          (← spanFrom start)) := by
    refine behind fun _ _ _ => reading rfl (behind fun _ _ _ => behind fun _ _ _ =>
      behind fun _ _ _ => addStmt ?_)
    cases isContinue <;> exact .plain rfl nofun nofun
  unfold Compile.jump
  refine reading rfl (behind fun _ _ _ => reading rfl ?_)
  dsimp only
  split
  · exact reading rfl (behind fun _ _ _ => reading rfl (ends _ _ _))
  · exact reading rfl (ends _ _ _)

/-- The value of a label of a switch. -/
theorem caseValue :
    Builds context known own state (fun _ _ => True) Compile.caseValue := by
  unfold Compile.caseValue
  refine bind expression fun _ value _ _ => reading rfl (reading rfl ?_)
  dsimp only
  split
  · exact failedAtThen
  · exact behind fun _ _ _ => require fun _ _ => trivial

/-! ## Statements with nested statements -/

section Nested

variable {nested : Compile StmtId}
  (builds : ∀ state, Builds context known own state CompileState.HasStmt nested)

include builds

/-- The statements of a block. -/
theorem blockBody :
    Builds context known own state HasStmts (Compile.blockBody nested) := by
  unfold Compile.blockBody
  refine loop (H := HasStmts) nofun fun between collected _ has => ?_
  refine eating (fun _ _ _ => pure has) (reading rfl ?_)
  dsimp only
  split
  · exact failedThen
  · exact bind (builds _) fun after id onward added => pure
      (List.forall_mem_append.mpr ⟨onward.hasStmts has, List.forall_mem_singleton.mpr added⟩)

/-- The statements of a block in braces. -/
theorem scopedBlock :
    Builds context known own state HasStmts (Compile.scopedBlock nested) := by
  unfold Compile.scopedBlock
  refine behind fun _ _ _ => scoping (.pushBlock _) ?_
  refine bind (blockBody builds) fun after statements _ has => scoping (.popBlock _) ?_
  exact pure (CompileState.Onward.hasStmts (.ofScope (.popBlock _)) has)

/-- A block. -/
theorem block :
    Builds context known own state CompileState.HasStmt (Compile.block nested) := by
  unfold Compile.block
  exact reading rfl (bind (scopedBlock builds) fun _ _ _ has => behind fun _ _ _ =>
    addStmt (.plain rfl nofun has))

/-- A branch. -/
theorem branch :
    Builds context known own state CompileState.HasStmt (Compile.branch nested) := by
  unfold Compile.branch
  refine reading rfl (behind fun _ _ _ => bind condition fun _ test _ hasTest => ?_)
  refine bind (builds _) fun between whenTrue onward hasTrue => ?_
  have hasTest := onward.hasExpr hasTest
  refine eating (fun _ _ _ => ?_) (reading rfl (behind fun _ _ _ => addStmt ?_))
  · refine bind (optional (builds _)) fun after whenFalse onward hasFalse => ?_
    refine behind fun _ _ _ => addStmt
      (.plain rfl (List.forall_mem_singleton.mpr (onward.hasExpr hasTest)) ?_)
    refine List.forall_mem_cons.mpr ⟨onward.hasStmt hasTrue, fun id isOther => ?_⟩
    exact hasFalse id (Option.mem_toList.mp isOther)
  · exact
      (.plain rfl (List.forall_mem_singleton.mpr hasTest)
        (List.forall_mem_singleton.mpr hasTrue))

/-! ### Loops -/

/-- The body of a loop. -/
theorem loopBody
    (label : Option String) :
    Builds context known own state CompileState.HasStmt (Compile.loopBody nested label) := by
  unfold Compile.loopBody
  refine scoping (.pushLoop _ _) (bind (builds _) fun after body _ has => ?_)
  refine scoping (.popBreakable _) (pure ?_)
  exact CompileState.Onward.hasStmt (.ofScope (.popBreakable _)) has

/-- A loop with its test in front. -/
theorem whileLoop
    (label : Option String) :
    Builds context known own state CompileState.HasStmt (Compile.whileLoop nested label) := by
  unfold Compile.whileLoop
  refine reading rfl (behind fun _ _ _ => bind condition fun _ test _ hasTest => ?_)
  refine bind (loopBody builds label) fun _ body onward hasBody => behind fun _ _ _ => ?_
  exact addStmt
    (.plain rfl (List.forall_mem_singleton.mpr (onward.hasExpr hasTest))
      (List.forall_mem_singleton.mpr hasBody))

/-- A loop with its test at the end. -/
theorem doLoop
    (label : Option String) :
    Builds context known own state CompileState.HasStmt (Compile.doLoop nested label) := by
  unfold Compile.doLoop
  refine reading rfl (behind fun _ _ _ => bind (loopBody builds label) fun _ body _ hasBody => ?_)
  refine behind fun _ _ _ => bind condition fun _ test onward hasTest => ?_
  exact behind fun _ _ _ => behind fun _ _ _ => addStmt
    (.plain rfl (List.forall_mem_singleton.mpr hasTest)
      (List.forall_mem_singleton.mpr (onward.hasStmt hasBody)))

/-- A loop with a start, a test and steps. -/
theorem forLoop
    (label : Option String) :
    Builds context known own state CompileState.HasStmt (Compile.forLoop nested label) := by
  unfold Compile.forLoop
  refine reading rfl (behind fun _ _ _ => expecting fun opened _ strictly => ?_)
  have behindStart (ended : context.Ended) : 0 < opened :=
    Nat.lt_of_le_of_lt (Nat.zero_le _) (strictly ended)
  refine scoping (.pushBlock _) (bind (loopStart behindStart) ?_)
  intro first initial _ hasInitial
  have ends {state : CompileState} {test : Option ExprId} {steps : List ExprId} (start : Span)
      (onward : first.Onward state) (hasTest : ∀ id ∈ test, state.HasExpr id)
      (hasSteps : state.HasExprs context steps) :
      Builds context known own state CompileState.HasStmt (do
        expect .closePar .closePar
        let body ← Compile.loopBody nested label
        let statement ← Compile.addStmt (.forLoop label initial test steps body)
          (← spanFrom start)
        modifyScope Scope.popBlock
        return statement) := by
    refine behind fun _ _ forth => bind (loopBody builds label) fun after body further hasBody => ?_
    have further := CompileState.Onward.trans (.ofPosition forth) further
    have hasInitial := (onward.trans further).hasStmts hasInitial
    have hasSteps := hasSteps.mono further
    refine withReady fun ready => behind fun _ _ _ => bind (addStmt ?_) fun _ _ _ added => ?_
    · refine
        { exprs := List.forall_mem_append.mpr ⟨fun id isTest => ?_, hasSteps.has⟩
          children := List.forall_mem_append.mpr
            ⟨hasInitial, List.forall_mem_singleton.mpr hasBody⟩
          slot := nofun
          short := hasSteps.limit ready }
      exact further.hasExpr (hasTest id (Option.mem_toList.mp isTest))
    · refine scoping (.popBlock _) (pure ?_)
      exact CompileState.Onward.hasStmt (.ofScope (.popBlock _)) added
  have tested {state : CompileState} {test : Option ExprId} (start : Span)
      (onward : first.Onward state) (hasTest : ∀ id ∈ test, state.HasExpr id) :
      Builds context known own state CompileState.HasStmt (do
        expectSemicolon
        let steps ← if ← at' .closePar then Pure.pure [] else Compile.expressionList
        expect .closePar .closePar
        let body ← Compile.loopBody nested label
        let statement ← Compile.addStmt (.forLoop label initial test steps body)
          (← spanFrom start)
        modifyScope Scope.popBlock
        return statement) := by
    refine expecting fun position forth strictly => reading rfl ?_
    have onward := onward.trans (.ofPosition forth)
    split
    · exact reading rfl (ends start onward hasTest .nil)
    · have behindStart (ended : context.Ended) : 0 < position :=
        Nat.lt_of_le_of_lt (Nat.zero_le _) (strictly ended)
      refine bind (expressionList behindStart) fun after steps further hasSteps => ?_
      exact ends start (onward.trans further)
        (fun id isTest => further.hasExpr (hasTest id isTest)) hasSteps
  refine behind fun _ _ forth => reading rfl ?_
  dsimp only
  split
  · refine reading rfl (tested _ (.ofPosition forth) ?_)
    exact nofun
  · refine bind expression fun after test further hasTest => behind fun _ _ later => ?_
    refine reading rfl (tested _ ?_ ?_)
    · exact (CompileState.Onward.trans (.ofPosition forth) further).trans (.ofPosition later)
    · rintro _ ⟨⟩
      exact hasTest

/-- A loop with a number of rounds. -/
theorem repeatLoop
    (label : Option String) :
    Builds context known own state CompileState.HasStmt (Compile.repeatLoop nested label) := by
  unfold Compile.repeatLoop
  refine reading rfl (behind fun _ _ _ => behind fun _ _ _ => behind fun isMissing _ _ => ?_)
  dsimp only
  split
  · exact failedThen
  · refine bind expression fun _ count _ hasCount => reading rfl ?_
    split
    · exact reading rfl failedAtThen
    · refine behind fun _ _ _ => bind (loopBody builds label) fun _ body onward hasBody => ?_
      exact behind fun _ _ _ => addStmt
        (.plain rfl (List.forall_mem_singleton.mpr (onward.hasExpr hasCount))
          (List.forall_mem_singleton.mpr hasBody))

/-- A loop with a label in front. -/
theorem labeledLoop :
    Builds context known own state CompileState.HasStmt (Compile.labeledLoop nested) := by
  unfold Compile.labeledLoop
  refine reading rfl (behind fun _ _ _ => behind fun _ _ _ => reading rfl ?_)
  split
  · exact whileLoop builds _
  · exact doLoop builds _
  · exact forLoop builds _
  · exact repeatLoop builds _
  · exact failed

/-! ### Switches and handlers -/

/-- The labels and statements of a switch. -/
theorem switchBody :
    Builds context known own state (fun after parts => HasStmts after parts.2)
      (Compile.switchBody nested) := by
  unfold Compile.switchBody
  refine loop (H := fun state parts => HasStmts state parts.2) nofun ?_
  rintro between ⟨cases, body⟩ _ has
  have labeled (state : CompileState) (has : HasStmts state body) (label : Span)
      (value : Option Int64) :
      Builds context known own state
        (Turn.Meets (fun state parts => HasStmts state parts.2)
          fun state (parts : List SwitchCase × List StmtId) => HasStmts state parts.2)
        (do
          expect .colon .noColon
          if cases.any fun entry => entry.value == value then failAt .redefinedCase label
          return Turn.again (cases ++ [⟨value, Word.ofNat body.length⟩], body)) := by
    refine behind fun _ _ _ => ?_
    dsimp only
    split
    · exact failedAtThen
    · exact pure has
  refine eating (fun _ _ _ => pure has) (reading rfl ?_)
  dsimp only
  split
  · exact failedThen
  · refine reading rfl (eating (fun _ _ _ => ?_) (eating (fun _ _ _ => ?_) ?_))
    · exact bind caseValue fun _ value onward _ => labeled _ (onward.hasStmts has) _ (some value)
    · refine labeled _ ?_ _ none
      exact has
    · simp only [Bool.false_eq_true, reduceIte]
      split
      · exact failedThen
      · exact bind (builds _) fun _ id onward added => pure
          (List.forall_mem_append.mpr ⟨onward.hasStmts has, List.forall_mem_singleton.mpr added⟩)

/-- A switch. -/
theorem switchOn :
    Builds context known own state CompileState.HasStmt (Compile.switchOn nested) := by
  unfold Compile.switchOn
  refine reading rfl (behind fun _ _ _ => behind fun _ _ _ => bind expression ?_)
  refine fun _ value _ hasValue => reading rfl ?_
  dsimp only
  split
  · exact reading rfl failedAtThen
  · refine behind fun _ _ _ => behind fun _ _ _ => ?_
    have opens (scope : Scope) : scope.Extends scope.pushSwitch.pushBlock :=
      .trans (.pushSwitch scope) (.pushBlock _)
    have closes (scope : Scope) : scope.Extends scope.popBlock.popBreakable :=
      .trans (.popBlock scope) (.popBreakable _)
    refine scoping (opens _) (bind (switchBody builds) fun after parts onward has => ?_)
    have hasValue := onward.hasExpr (CompileState.Onward.hasExpr (.ofScope (opens _)) hasValue)
    refine behind fun _ _ _ => bind (addStmt ?_) fun _ _ _ added => ?_
    · exact .plain rfl (List.forall_mem_singleton.mpr hasValue) has
    · refine scoping (closes _) (pure ?_)
      exact CompileState.Onward.hasStmt (.ofScope (closes _)) added

/-- The catch clauses behind a guarded block. -/
theorem catchClauses :
    Builds context known own state (CompileState.HasClauses context)
      (Compile.catchClauses nested) := by
  unfold Compile.catchClauses
  refine loop (H := CompileState.HasClauses context) ⟨nofun, nofun, fun _ => Nat.zero_le _⟩ ?_
  intro between clauses _ has
  refine reading rfl (eating (fun position forth strictly => ?_) (pure has))
  refine behind fun _ _ opened => bind expression fun tested test first hasTest => ?_
  refine reading rfl (reading rfl (requiring fun kind _ => behind fun _ _ closed => ?_))
  refine behind fun place _ spanned => bind (block builds) fun after body last added => pure ?_
  have last := CompileState.Onward.trans (.ofPosition (Nat.le_trans closed spanned)) last
  have behindKeyword :
      CompileState.Onward ⟨position, between.tree, between.scope⟩ after :=
    (CompileState.Onward.ofPosition opened).trans (first.trans last)
  have onward := (CompileState.Onward.ofPosition forth).trans behindKeyword
  have conditions := onward.hasExprs has.conditions
  have bodies := onward.hasStmts has.bodies
  refine ⟨?_, ?_, fun ended => ?_⟩
  · rw [List.map_append]
    exact List.forall_mem_append.mpr
      ⟨conditions, List.forall_mem_singleton.mpr (last.hasExpr hasTest)⟩
  · rw [List.map_append]
    exact List.forall_mem_append.mpr ⟨bodies, List.forall_mem_singleton.mpr added⟩
  · rw [List.length_append, List.length_singleton]
    exact Nat.le_trans (Nat.lt_of_le_of_lt (has.short ended) (strictly ended))
      behindKeyword.position

/-- A guarded block with its handlers. -/
theorem guarded :
    Builds context known own state CompileState.HasStmt (Compile.guarded nested) := by
  unfold Compile.guarded
  refine reading rfl (behind fun _ _ _ => bind (scopedBlock builds) fun _ body _ hasBody => ?_)
  refine bind (catchClauses builds) fun between clauses onward hasClauses => ?_
  have hasBody := onward.hasStmts hasBody
  have ends {state : CompileState} {final : Option StmtId} (start : Span)
      (onward : between.Onward state) (hasFinal : ∀ id ∈ final, state.HasStmt id) :
      Builds context known own state CompileState.HasStmt (do
        Compile.addStmt (.guarded body clauses final) (← spanFrom start)) := by
    refine withReady fun ready => behind fun _ _ _ => addStmt
      { exprs := onward.hasExprs hasClauses.conditions
        children := List.forall_mem_append.mpr
          ⟨List.forall_mem_append.mpr ⟨onward.hasStmts hasBody, onward.hasStmts hasClauses.bodies⟩,
            fun id isFinal => hasFinal id (Option.mem_toList.mp isFinal)⟩
        slot := nofun
        short := fun ended => ?_ }
    exact Nat.le_trans (hasClauses.short ended) (Nat.le_trans onward.position ready.inside)
  refine eating (fun _ _ _ => ?_) (reading rfl (ends _ (.refl _) ?_))
  · refine bind (optional (block builds)) fun after final further hasFinal => ?_
    exact ends _ ((CompileState.Onward.ofPosition ‹_›).trans further) hasFinal
  · exact nofun

/-! ### Statements -/

/-- The statement that a symbol starts. -/
theorem symbolStatement
    (symbol : Symbol) :
    Builds context known own state CompileState.HasStmt (Compile.symbolStatement nested symbol) := by
  unfold Compile.symbolStatement
  split
  · exact block builds
  · exact branch builds
  · exact whileLoop builds none
  · exact doLoop builds none
  · exact forLoop builds none
  · exact repeatLoop builds none
  · exact switchOn builds
  · exact guarded builds
  · exact throwStatement
  · exact returnStatement
  · exact jump false
  · exact jump true
  · exact failed
  · exact failed
  · exact failed
  · exact reading rfl (behind fun _ _ _ => addStmt (.plain rfl nofun nofun))
  · split
    · exact declarationStatement
    · exact expressionStatement

/-- The statement at the current token. -/
theorem statementWith :
    Builds context known own state CompileState.HasStmt (Compile.statementWith nested) := by
  unfold Compile.statementWith
  refine reading rfl ?_
  split
  · exact symbolStatement builds _
  · refine behind fun next _ _ => ?_
    split
    · exact labeledLoop builds
    · refine bind atDeclaration fun _ declares _ _ => ?_
      split
      · exact declarationStatement
      · exact expressionStatement
  · exact expressionStatement

end Nested

/-- A statement. -/
theorem statement :
    Builds context known own state CompileState.HasStmt Compile.statement := by
  have within (bound : Nat) :
      ∀ state, Builds context known own state CompileState.HasStmt (statementWithin bound) := by
    induction bound with
    | zero => exact fun _ => failed
    | succ bound inductionHypothesis => exact fun _ => statementWith inductionHypothesis
  exact reading rfl (within _ state)

/-- The body of a function. -/
theorem functionBlock :
    Builds context known own state CompileState.HasStmt Compile.functionBlock := by
  unfold Compile.functionBlock
  refine reading rfl (behind fun _ _ _ => bind (blockBody fun _ => statement) fun _ _ _ has => ?_)
  exact behind fun _ _ _ => addStmt (.plain rfl nofun has)

end Compile.Builds

end BotScript
