import BotScript.Proofs.MemberAccess

namespace BotScript

/-!
# Compilation steps that build the tree

A step over a sound tree leaves a sound tree that has grown out of it, moves on
in the token list and keeps the class and the variables of the scope.  What its
result must meet is a condition on the state behind the step, so that such
conditions are passed on from one step to the next.  What it names may be used by
code of the class of the scope; this is about the tree in the end, so that it says
the same behind every later step.
-/

/-- The natives that a host offers are among those that programs may know. -/
structure Registry.Offers (registry : Registry) (known : NativeId → Prop) : Prop where
  methods : ∀ entry ∈ registry.classes, ∀ method ∈ entry.methods, known method.native
  natives : ∀ id, (registry.native? id).isSome → known id

/-- Programs that may know all natives know those of every host. -/
theorem Registry.offers_all
    (registry : Registry) :
    registry.Offers fun _ => True :=
  ⟨fun _ _ _ _ => trivial, fun _ _ => trivial⟩

/--
A scope goes on: no variable is lost, outside all functions it stays outside, and it stays in
its class.
-/
structure Scope.Extends (before after : Scope) : Prop where
  locals : before.locals <+: after.locals
  outside : before.function = none → after.function = none
  owner : after.owner = before.owner

/-- A scope outside all functions and classes. -/
structure Scope.Outside (scope : Scope) : Prop where
  function : scope.function = none
  owner : scope.owner = none

namespace Scope.Extends

/-- Outside all functions and classes a scope stays there. -/
theorem stays
    {before after : Scope}
    (goesOn : before.Extends after)
    (outside : before.Outside) :
    after.Outside :=
  ⟨goesOn.outside outside.function, goesOn.owner.trans outside.owner⟩

/-- A scope that has not changed. -/
theorem refl (scope : Scope) : scope.Extends scope :=
  ⟨List.prefix_rfl, id, rfl⟩

/-- A scope that has changed twice. -/
theorem trans
    {before between after : Scope}
    (first : before.Extends between)
    (second : between.Extends after) :
    before.Extends after :=
  ⟨first.locals.trans second.locals, second.outside ∘ first.outside,
    second.owner.trans first.owner⟩

/-- A change of a function scope that leaves its variables alone. -/
theorem inFunction
    {scope : Scope}
    {change : FunctionScope → FunctionScope}
    (same : ∀ function, (change function).locals = function.locals) :
    scope.Extends (scope.inFunction change) := by
  obtain ⟨owner, hasThis, function⟩ := scope
  cases function with
  | none => exact refl _
  | some function =>
      refine ⟨?_, nofun, rfl⟩
      simp [Scope.inFunction, Scope.locals, same]

/-- A block is opened. -/
theorem pushBlock (scope : Scope) : scope.Extends scope.pushBlock :=
  inFunction fun _ => rfl

/-- A block is closed. -/
theorem popBlock (scope : Scope) : scope.Extends scope.popBlock :=
  inFunction fun _ => rfl

/-- A loop is entered. -/
theorem pushLoop (scope : Scope) (label : Option String) : scope.Extends (scope.pushLoop label) :=
  inFunction fun _ => rfl

/-- A switch is entered. -/
theorem pushSwitch (scope : Scope) : scope.Extends scope.pushSwitch :=
  inFunction fun _ => rfl

/-- A loop or a switch is left. -/
theorem popBreakable (scope : Scope) : scope.Extends scope.popBreakable :=
  inFunction fun _ => rfl

end Scope.Extends

namespace CompileState

/-- A state whose tree is sound. -/
structure Ready
    (context : CompileContext) (known : NativeId → Prop) (own : Nat) (state : CompileState) :
    Prop where
  offers : context.registry.Offers known
  tree : state.tree.Sound context known own
  owner : ∀ owner ∈ state.scope.owner, owner.index < state.tree.classes.size
  inside : state.position ≤ context.tokens.size - 1

/-- A state that a step has led to; the step declares no function and no member. -/
structure Onward (before after : CompileState) : Prop where
  tree : before.tree.Keeps after.tree
  functions : after.tree.functions = before.tree.functions
  classes : before.tree.Gains after.tree
  position : before.position ≤ after.position
  scope : before.scope.Extends after.scope

/--
An expression that has been added, that reads variables of the scope only, and that code of the
class of the scope may evaluate.
-/
def HasExpr (state : CompileState) (id : ExprId) : Prop :=
  id.index < state.tree.exprs.size ∧
    (state.tree.Fits → ∀ slot, state.tree.Reads id slot →
      slot.index < state.scope.locals.length) ∧
    state.tree.Finally fun final => final.MayEvaluate state.scope.owner id

/-- An expression that has been added, and whose type keeps its value if it is a constant. -/
def HasOperand (state : CompileState) (id : ExprId) : Prop :=
  state.HasExpr id ∧ (state.tree.Fits → state.tree.Operable id)

/--
A statement that has been added, that touches variables of the scope only, and that code of the
class of the scope may execute.
-/
def HasStmt (state : CompileState) (id : StmtId) : Prop :=
  id.index < state.tree.stmts.size ∧
    (state.tree.Fits → ∀ slot, state.tree.Touches id slot →
      slot.index < state.scope.locals.length) ∧
    state.tree.Finally fun final => final.MayExecute state.scope.owner id

namespace Onward

variable {before between after : CompileState}

/-- Nothing has changed. -/
theorem refl (state : CompileState) : state.Onward state :=
  ⟨.refl _, rfl, .refl _, Nat.le_refl _, .refl _⟩

/-- Two steps lead on. -/
theorem trans
    (first : before.Onward between)
    (second : between.Onward after) :
    before.Onward after :=
  ⟨first.tree.trans second.tree, second.functions.trans first.functions,
    first.classes.trans second.classes, Nat.le_trans first.position second.position,
    first.scope.trans second.scope⟩

/-- A step over tokens leads on. -/
theorem ofStrode
    {context : CompileContext}
    (strode : CompileState.Strode context before after) :
    before.Onward after :=
  ⟨strode.tree ▸ .refl _, congrArg Tree.functions strode.tree, strode.tree ▸ .refl _,
    strode.position, strode.scope ▸ .refl _⟩

/-- A position further on. -/
theorem ofPosition
    {state : CompileState}
    {position : Nat}
    (forth : state.position ≤ position) :
    state.Onward ⟨position, state.tree, state.scope⟩ :=
  ⟨.refl _, rfl, .refl _, forth, .refl _⟩

/-- A scope that goes on. -/
theorem ofScope
    {state : CompileState}
    {scope : Scope}
    (goesOn : state.scope.Extends scope) :
    state.Onward ⟨state.position, state.tree, scope⟩ :=
  ⟨.refl _, rfl, .refl _, Nat.le_refl _, goesOn⟩

/-- Behind a step all members are declared that were, and no others. -/
theorem settles (onward : before.Onward after) : before.tree.Settles after.tree :=
  onward.classes.settles onward.tree.grows (congrArg Array.size onward.functions)

/-- An added expression stays there. -/
theorem hasExpr
    {id : ExprId}
    (onward : before.Onward after)
    (has : before.HasExpr id) :
    after.HasExpr id := by
  obtain ⟨inside, visible, access⟩ := has
  refine ⟨Nat.lt_of_lt_of_le inside onward.tree.grows.exprs_size, fun fits slot reads => ?_, ?_⟩
  · have earlier := visible (onward.tree.grows.fits fits) slot (onward.tree.reads id slot inside reads)
    exact Nat.lt_of_lt_of_le earlier onward.scope.locals.length_le
  · rw [onward.scope.owner]
    exact access.mono onward.settles

/-- An added expression stays there, and so does its value. -/
theorem hasOperand
    {id : ExprId}
    (onward : before.Onward after)
    (has : before.HasOperand id) :
    after.HasOperand id :=
  ⟨onward.hasExpr has.1, fun fits =>
    onward.tree.operable id has.1.1 (has.2 (onward.tree.grows.fits fits))⟩

/-- An added statement stays there. -/
theorem hasStmt
    {id : StmtId}
    (onward : before.Onward after)
    (has : before.HasStmt id) :
    after.HasStmt id := by
  obtain ⟨inside, visible, access⟩ := has
  refine ⟨Nat.lt_of_lt_of_le inside onward.tree.grows.stmts_size, fun fits slot touches => ?_, ?_⟩
  · have earlier :=
      visible (onward.tree.grows.fits fits) slot (onward.tree.touches id slot inside touches)
    exact Nat.lt_of_lt_of_le earlier onward.scope.locals.length_le
  · rw [onward.scope.owner]
    exact access.mono onward.settles

/-- Added expressions stay there. -/
theorem hasExprs
    {ids : List ExprId}
    (onward : before.Onward after)
    (has : ∀ id ∈ ids, before.HasExpr id) :
    ∀ id ∈ ids, after.HasExpr id :=
  fun id isMember => onward.hasExpr (has id isMember)

/-- Added statements stay there. -/
theorem hasStmts
    {ids : List StmtId}
    (onward : before.Onward after)
    (has : ∀ id ∈ ids, before.HasStmt id) :
    ∀ id ∈ ids, after.HasStmt id :=
  fun id isMember => onward.hasStmt (has id isMember)

end Onward

/--
An expression of a type can be added: its parts are there, and what it refers to, and a member
that it names may be named.
-/
structure Takes
    (context : CompileContext) (known : NativeId → Prop) (state : CompileState)
    (ty : Ty) (kind : ExprKind) :
    Prop where
  children : ∀ child ∈ kind.children, state.HasExpr child
  slot : ∀ slot, kind = .localVar slot → slot.index < state.scope.locals.length
  refers : kind.Refers known state.tree
  short : Tree.Short context kind.arguments.length
  meets : state.tree.Fits → state.tree.Meets kind
  apt : state.tree.Apt kind
  operates : state.tree.Fits → state.tree.Operates ty kind
  access : state.tree.Finally fun final => final.MayName state.scope.owner kind

/-- An expression that refers to nothing but its parts can be added when they are there. -/
theorem Takes.plain
    {context : CompileContext}
    {known : NativeId → Prop}
    {state : CompileState}
    {ty : Ty}
    {kind : ExprKind}
    (isPlain : kind.isPlain = true)
    (children : ∀ child ∈ kind.children, state.HasExpr child)
    (operates : state.tree.Fits → state.tree.Operates ty kind) :
    state.Takes context known ty kind := by
  cases kind with
  | localVar | field | staticField | call | nativeCall | methodCall | new | arrayLiteral | index
  | assign | step =>
      cases isPlain
  | _ =>
      exact ⟨children, nofun, trivial, fun _ => Nat.zero_le _, fun _ => trivial, trivial, operates,
        .ofOther rfl⟩

/-- A statement can be added: its parts are there. -/
structure TakesStmt (context : CompileContext) (state : CompileState) (kind : StmtKind) :
    Prop where
  exprs : ∀ id ∈ kind.childExprs, state.HasExpr id
  children : ∀ child ∈ kind.childStmts, state.HasStmt child
  slot :
    ∀ slot limits initial, kind = .declare slot limits initial →
      slot.index < state.scope.locals.length
  short : Tree.Short context kind.width

/-- A statement that declares nothing and has no lists can be added when its parts are there. -/
theorem TakesStmt.plain
    {context : CompileContext}
    {state : CompileState}
    {kind : StmtKind}
    (isPlain : kind.isPlain = true)
    (exprs : ∀ id ∈ kind.childExprs, state.HasExpr id)
    (children : ∀ child ∈ kind.childStmts, state.HasStmt child) :
    state.TakesStmt context kind := by
  cases kind with
  | declare | forLoop | guarded => cases isPlain
  | _ => exact ⟨exprs, children, nofun, fun _ => Nat.zero_le _⟩

/-- An expression has been added. -/
structure Added (kind : ExprKind) (ty : Ty) (place : Span) (state : CompileState) (id : ExprId) :
    Prop where
  has : state.HasExpr id
  node : state.tree.Fits → state.tree.expr id = ⟨kind, ty, place⟩

end CompileState

namespace Compile

variable {α β σ : Type} {context : CompileContext} {known : NativeId → Prop} {own : Nat}
  {state : CompileState}

/-- A step keeps the tree sound, and its result meets a condition on the state behind it. -/
def Builds
    (context : CompileContext) (known : NativeId → Prop) (own : Nat) (state : CompileState)
    (post : CompileState → α → Prop) (step : Compile α) :
    Prop :=
  state.Ready context known own → ∀ value after, step context state = .ok (value, after) →
    after.Ready context known own ∧ state.Onward after ∧ post after value

/-- A turn of a loop ends it with a result, or goes on with a state, that meets its condition. -/
def Turn.Meets
    (holds : CompileState → σ → Prop) (post : CompileState → α → Prop) (state : CompileState) :
    Turn σ α → Prop
  | .again next => holds state next
  | .done result => post state result

namespace Builds

variable {post : CompileState → β → Prop}

/-! ## Steps of the monad -/

/-- A result that needs no step. -/
theorem pure
    {value : β}
    (holds : post state value) :
    Builds context known own state post (Pure.pure value) := by
  intro ready result after runs
  cases runs
  exact ⟨ready, .refl _, holds⟩

/-- A step and what follows it. -/
theorem bind
    {M : CompileState → α → Prop}
    {step : Compile α}
    {next : α → Compile β}
    (first : Builds context known own state M step)
    (rest : ∀ between value, state.Onward between → M between value →
      Builds context known own between post (next value)) :
    Builds context known own state post (step >>= next) := by
  intro ready result after runs
  obtain ⟨value, between, taken, goesOn⟩ := bind_ok runs
  obtain ⟨betweenReady, onward, holds⟩ := first ready _ _ taken
  obtain ⟨afterReady, further, last⟩ := rest between value onward holds betweenReady _ _ goesOn
  exact ⟨afterReady, onward.trans further, last⟩

/-- A condition that says less of the result. -/
theorem weaken
    {M : CompileState → β → Prop}
    {step : Compile β}
    (builds : Builds context known own state M step)
    (holds : ∀ after value, state.Onward after → M after value → post after value) :
    Builds context known own state post step := by
  intro ready result after runs
  obtain ⟨afterReady, onward, meets⟩ := builds ready _ _ runs
  exact ⟨afterReady, onward, holds _ _ onward meets⟩

/-- A change of the result. -/
theorem map
    {M : CompileState → α → Prop}
    {change : α → β}
    {step : Compile α}
    (builds : Builds context known own state M step)
    (holds : ∀ after value, state.Onward after → M after value → post after (change value)) :
    Builds context known own state post (change <$> step) := by
  rw [map_eq_pure_bind]
  exact builds.bind fun after value onward meets => pure (holds after value onward meets)

/-- The tree is sound. -/
theorem withReady
    {step : Compile β}
    (builds : state.Ready context known own → Builds context known own state post step) :
    Builds context known own state post step :=
  fun ready => builds ready ready

/-- A step with a known result. -/
theorem ofRun
    {step : Compile β}
    {value : β}
    {after : CompileState}
    (runs : step context state = .ok (value, after))
    (meets : state.Ready context known own →
      after.Ready context known own ∧ state.Onward after ∧ post after value) :
    Builds context known own state post step := by
  intro ready result last ends
  cases runs.symm.trans ends
  exact meets ready

/-- What follows a step with a known result that changes nothing. -/
theorem reading
    {step : Compile α}
    {next : α → Compile β}
    {value : α}
    (runs : step context state = .ok (value, state))
    (rest : Builds context known own state post (next value)) :
    Builds context known own state post (step >>= next) := by
  intro ready result after goesOn
  obtain ⟨found, between, taken, goesOn⟩ := bind_ok goesOn
  cases runs.symm.trans taken
  exact rest ready _ _ goesOn

/-- What follows a step over tokens. -/
theorem behind
    {step : Compile α}
    {next : α → Compile β}
    [strides : Strides step]
    (rest : ∀ value position, state.position ≤ position →
      Builds context known own ⟨position, state.tree, state.scope⟩ post (next value)) :
    Builds context known own state post (step >>= next) := by
  intro ready result after runs
  obtain ⟨value, ⟨position, tree, scope⟩, taken, goesOn⟩ := bind_ok runs
  obtain ⟨sameTree, sameScope, forth, inside⟩ := strides.strode _ _ _ _ taken
  cases sameTree
  cases sameScope
  obtain ⟨afterReady, onward, holds⟩ := rest value position forth
    ⟨ready.offers, ready.tree, ready.owner, inside ready.inside⟩ _ _ goesOn
  exact ⟨afterReady, ⟨onward.tree, onward.functions, onward.classes,
    Nat.le_trans forth onward.position, onward.scope⟩, holds⟩

/-- A step over tokens that ends a step. -/
theorem strides
    {step : Compile β}
    [Strides step]
    (holds : ∀ value position, state.position ≤ position →
      post ⟨position, state.tree, state.scope⟩ value) :
    Builds context known own state post step := by
  have builds : Builds context known own state post (step >>= fun value => Pure.pure value) :=
    behind fun value position forth => pure (holds value position forth)
  rwa [bind_pure] at builds

/-! ## Failures and checks -/

/-- A step that fails. -/
theorem failed
    {code : ErrorCode} :
    Builds context known own state post (fail code) := by
  intro ready result after runs
  obtain ⟨_, _, taken, runs⟩ := bind_ok runs
  cases runs

/-- A step that fails at a place. -/
theorem failedAt
    {code : ErrorCode}
    {place : Span} :
    Builds context known own state post (failAt code place) := by
  intro ready result after runs
  cases runs

/-- Nothing follows a step that fails. -/
theorem failedThen
    {code : ErrorCode}
    {next : α → Compile β} :
    Builds context known own state post (fail code >>= next) := by
  intro ready result after runs
  obtain ⟨_, _, taken, -⟩ := bind_ok runs
  obtain ⟨_, _, taken, failing⟩ := bind_ok taken
  cases failing

/-- Nothing follows a step that fails at a place. -/
theorem failedAtThen
    {code : ErrorCode}
    {place : Span}
    {next : α → Compile β} :
    Builds context known own state post (failAt code place >>= next) := by
  intro ready result after runs
  cases runs

/-- What follows a demand for a value. -/
theorem requiring
    {code : ErrorCode}
    {place : Span}
    {found : Option α}
    {next : α → Compile β}
    (rest : ∀ value, found = some value → Builds context known own state post (next value)) :
    Builds context known own state post (requireAt code place found >>= next) := by
  cases found with
  | none => exact failedAtThen
  | some value => exact reading rfl (rest value rfl)

/-- A demand for a value. -/
theorem require
    {code : ErrorCode}
    {place : Span}
    {found : Option β}
    (holds : ∀ value, found = some value → post state value) :
    Builds context known own state post (requireAt code place found) := by
  cases found with
  | none => exact failedAt
  | some value => exact pure (holds value rfl)

/-- What follows a check. -/
theorem checking
    {place : Span}
    {checked : Except ErrorCode α}
    {next : α → Compile β}
    (rest : ∀ value, checked = .ok value → Builds context known own state post (next value)) :
    Builds context known own state post (checkAt place checked >>= next) := by
  cases checked with
  | error code => exact failedAtThen
  | ok value => exact reading rfl (rest value rfl)

/-! ## Symbols -/

/-- What follows a symbol that may be there; if it is, it is not the end of the text. -/
theorem eating
    {symbol : Symbol}
    {next : Bool → Compile β}
    (taken : ∀ position, state.position ≤ position →
      (context.Ended → state.position < position) →
      Builds context known own ⟨position, state.tree, state.scope⟩ post (next true))
    (left : Builds context known own state post (next false)) :
    Builds context known own state post (eat symbol >>= next) := by
  intro ready result after runs
  obtain ⟨value, between, eaten, goesOn⟩ := bind_ok runs
  have strode := Strides.strode _ _ _ _ eaten
  obtain ⟨rfl, isSymbol, rfl⟩ | ⟨rfl, -, rfl⟩ := eat_ok eaten
  · have builds := taken _ strode.position fun ended => by
      rw [next_of_symbol ended isSymbol]
      exact Nat.lt_succ_self _
    obtain ⟨afterReady, onward, holds⟩ := builds
      ⟨ready.offers, ready.tree, ready.owner, strode.inside ready.inside⟩ _ _ goesOn
    exact ⟨afterReady, (CompileState.Onward.ofStrode strode).trans onward, holds⟩
  · exact left ready _ _ goesOn

/-- What follows a symbol that must be there. -/
theorem expecting
    {symbol : Symbol}
    {code : ErrorCode}
    {next : Unit → Compile β}
    (taken : ∀ position, state.position ≤ position →
      (context.Ended → state.position < position) →
      Builds context known own ⟨position, state.tree, state.scope⟩ post (next ())) :
    Builds context known own state post (expect symbol code >>= next) := by
  unfold expect
  rw [bind_assoc]
  refine eating (fun position forth strictly => ?_) ?_
  · exact taken position forth strictly
  · exact failedThen

/-! ## Loops -/

/-- A repeated step keeps what holds of the state of the loop. -/
theorem loop
    {H : CompileState → σ → Prop}
    {step : σ → Compile (Turn σ β)}
    {start : σ}
    (starts : H state start)
    (turn : ∀ between next, state.Onward between → H between next →
      Builds context known own between (Turn.Meets H post) (step next)) :
    Builds context known own state post (Compile.loop step start) := by
  have within (bound : Nat) :
      ∀ between next, state.Onward between → H between next →
        Builds context known own between post (loopWithin step bound next) := by
    induction bound with
    | zero => exact fun _ _ _ _ => failed
    | succ bound inductionHypothesis =>
        intro between next onward meets
        unfold loopWithin
        refine bind (turn between next onward meets) ?_
        rintro later (again | result) further continues
        · exact inductionHypothesis later again (onward.trans further) continues
        · exact pure continues
  exact reading rfl (within _ state start (.refl _) starts)

/-! ## Added nodes -/

/-- An added expression is what it was made. -/
theorem addExpr_added
    {kind : ExprKind}
    {ty : Ty}
    {place : Span}
    (takes : state.Takes context known ty kind) :
    Builds context known own state (CompileState.Added kind ty place)
      (Compile.addExpr kind ty place) := by
  refine ofRun rfl fun ready => ?_
  have grows := Tree.Grows.pushExpr state.tree ⟨kind, ty, place⟩
  have keeps := ready.tree.keeps grows
  have sound := ready.tree.pushExpr ⟨kind, ty, place⟩
    ⟨fun child isChild => (takes.children child isChild).1, takes.refers, takes.short,
      takes.meets, takes.apt, takes.operates⟩
  have isNode (fits : Tree.Fits { state.tree with exprs := state.tree.exprs.push ⟨kind, ty, place⟩ }) :
      Tree.expr? { state.tree with exprs := state.tree.exprs.push ⟨kind, ty, place⟩ }
        (Id.ofIndex state.tree.exprs.size) = some ⟨kind, ty, place⟩ := by
    have exact := @Id.index_ofIndex .expressions _ (grows.fits fits).exprs
    simp [Tree.expr?, exact]
  have gains : state.tree.Gains
      { state.tree with exprs := state.tree.exprs.push ⟨kind, ty, place⟩ } := .ofClasses rfl rfl
  refine ⟨⟨ready.offers, sound, ready.owner, ready.inside⟩,
    ⟨keeps, rfl, gains, Nat.le_refl _, .refl _⟩,
    ⟨?_, fun fits slot reads => ?_, fun final whole settles => ?_⟩, fun fits => ?_⟩
  · exact Nat.lt_of_le_of_lt (Id.index_ofIndex_le _) (by simp)
  · cases reads with
    | here found isLocal =>
        cases (isNode fits).symm.trans found
        exact takes.slot slot isLocal
    | within found isChild reads =>
        cases (isNode fits).symm.trans found
        obtain ⟨inside, visible, -⟩ := takes.children _ isChild
        exact visible (grows.fits fits) slot (keeps.reads _ slot inside reads)
  · have earlier := (gains.settles grows rfl).trans settles
    refine Tree.mayEvaluate_of
      (settles.grows.exprs _ _ (isNode (settles.grows.fits whole.fits)))
      (takes.access final whole earlier) fun child isChild => ?_
    exact (takes.children child isChild).2.2 final whole earlier
  · exact congrArg (Option.getD · default) (isNode fits)

/-- An added expression. -/
theorem addExpr
    {kind : ExprKind}
    {ty : Ty}
    {place : Span}
    (takes : state.Takes context known ty kind) :
    Builds context known own state CompileState.HasExpr (Compile.addExpr kind ty place) :=
  weaken (addExpr_added takes) fun _ _ _ added => added.has

/-- The type of an added expression keeps its value if it keeps those of literals. -/
theorem addOperand_added
    {kind : ExprKind}
    {ty : Ty}
    {place : Span}
    (takes : state.Takes context known ty kind)
    (literal : ∀ content, kind = .literal content → ty.Keeps (.ofLiteral content)) :
    Builds context known own state
      (fun after id => after.Added kind ty place id ∧ after.HasOperand id)
      (Compile.addExpr kind ty place) := by
  intro ready id after runs
  obtain ⟨afterReady, onward, added⟩ := addExpr_added takes ready id after runs
  refine ⟨afterReady, onward, added, added.has, fun fits value constant => ?_⟩
  have grows := onward.tree.grows
  rw [Tree.constant?_eq afterReady.tree.partsFirst added.has.1, added.node fits] at constant
  rw [added.node fits]
  have operates : after.tree.Operates ty kind :=
    (grows.operates_iff ready.tree.partsFirst fun child isChild =>
      (takes.children child isChild).1).mpr (takes.operates (grows.fits fits))
  exact Tree.constantOf_keeps operates literal constant

/-- An added expression that can be an operand. -/
theorem addOperand
    {kind : ExprKind}
    {ty : Ty}
    {place : Span}
    (takes : state.Takes context known ty kind)
    (literal : ∀ content, kind = .literal content → ty.Keeps (.ofLiteral content)) :
    Builds context known own state CompileState.HasOperand (Compile.addExpr kind ty place) :=
  weaken (addOperand_added takes literal) fun _ _ _ added => added.2

/-- An added statement. -/
theorem addStmt
    {kind : StmtKind}
    {place : Span}
    (takes : state.TakesStmt context kind) :
    Builds context known own state CompileState.HasStmt (Compile.addStmt kind place) := by
  refine ofRun rfl fun ready => ?_
  have grows := Tree.Grows.pushStmt state.tree ⟨kind, place⟩
  have keeps := ready.tree.keeps grows
  have sound := ready.tree.pushStmt ⟨kind, place⟩
    ⟨fun id isPart => (takes.exprs id isPart).1,
      fun child isChild => (takes.children child isChild).1, takes.short⟩
  have isNode (fits : Tree.Fits { state.tree with stmts := state.tree.stmts.push ⟨kind, place⟩ }) :
      Tree.stmt? { state.tree with stmts := state.tree.stmts.push ⟨kind, place⟩ }
        (Id.ofIndex state.tree.stmts.size) = some ⟨kind, place⟩ := by
    have exact := @Id.index_ofIndex .statements _ (grows.fits fits).stmts
    simp [Tree.stmt?, exact]
  have gains : state.tree.Gains
      { state.tree with stmts := state.tree.stmts.push ⟨kind, place⟩ } := .ofClasses rfl rfl
  refine ⟨⟨ready.offers, sound, ready.owner, ready.inside⟩,
    ⟨keeps, rfl, gains, Nat.le_refl _, .refl _⟩,
    ?_, fun fits slot touches => ?_, fun final whole settles => ?_⟩
  · exact Nat.lt_of_le_of_lt (Id.index_ofIndex_le _) (by simp)
  · cases touches with
    | declares found isDeclaration =>
        cases (isNode fits).symm.trans found
        exact takes.slot _ _ _ isDeclaration
    | reads found isPart reads =>
        cases (isNode fits).symm.trans found
        obtain ⟨inside, visible, -⟩ := takes.exprs _ isPart
        exact visible (grows.fits fits) slot (keeps.reads _ slot inside reads)
    | within found isChild touches =>
        cases (isNode fits).symm.trans found
        obtain ⟨inside, visible, -⟩ := takes.children _ isChild
        exact visible (grows.fits fits) slot (keeps.touches _ slot inside touches)
  · have earlier := (gains.settles grows rfl).trans settles
    refine Tree.mayExecute_of
      (settles.grows.stmts _ _ (isNode (settles.grows.fits whole.fits)))
      (fun value isPart => (takes.exprs value isPart).2.2 final whole earlier)
      fun child isChild => (takes.children child isChild).2.2 final whole earlier

end Builds

end Compile

/-! ## Imported classes -/

section Imports

variable {registry : Registry} {known : NativeId → Prop} {own : Nat} {tree after : Tree}
  {bound : Nat}
  {name : String} {id : ClassId}

open Compile (importClass hostDefinition)

/-- A bound that is enough to import a class stays enough. -/
theorem Compile.importClass_succ
    (imported : importClass registry bound tree name = some (id, after)) :
    importClass registry (bound + 1) tree name = some (id, after) := by
  induction bound generalizing name id after with
  | zero => cases imported
  | succ bound inductionHypothesis =>
      unfold importClass at imported ⊢
      split at imported
      · next isNamed => simpa [isNamed] using imported
      · next isNew =>
          split at imported
          · cases imported
          · next host isHost =>
              split at imported
              · next isTop => simpa [isNew, isHost, isTop] using imported
              · next parent isParent =>
                  obtain ⟨⟨above, between⟩, importedParent, added⟩ :=
                    Option.map_eq_some_iff.mp imported
                  simp only [inductionHypothesis importedParent]
                  exact congrArg some added

/-- To import a class adds classes only. -/
theorem Compile.importClass_same
    (imported : importClass registry bound tree name = some (id, after)) :
    after = { tree with classes := after.classes } := by
  induction bound generalizing name id after with
  | zero => cases imported
  | succ bound inductionHypothesis =>
      unfold importClass at imported
      split at imported
      · cases imported
        rfl
      · split at imported
        · cases imported
        · split at imported
          · cases imported
            rfl
          · obtain ⟨⟨above, between⟩, importedParent, added⟩ := Option.map_eq_some_iff.mp imported
            cases added
            rw [inductionHypothesis importedParent]

/-- Nothing is compiled for the class that stands for a host class. -/
theorem Compile.hostDefinition_blank
    (host : HostClass)
    (parent : Option ClassId) :
    (hostDefinition host parent).Blank := by
  intro field isField
  simp only [hostDefinition, List.append_nil, List.mem_map] at isField
  obtain ⟨_, -, rfl⟩ := isField
  rfl

/-- The class that stands for a host class is one of the host. -/
theorem Compile.hostDefinition_isImport
    (host : HostClass)
    (parent : Option ClassId) :
    (hostDefinition host parent).IsImport where
  isHost := rfl
  native method isMethod id isUser := by
    obtain ⟨_, -, rfl⟩ := List.mem_map.mp isMethod
    cases isUser
  dispatch := rfl

/-- To import a class keeps the other classes and adds classes of the host. -/
theorem Compile.importClass_gains
    (imported : importClass registry bound tree name = some (id, after)) :
    tree.Gains after := by
  induction bound generalizing name id after with
  | zero => cases imported
  | succ bound inductionHypothesis =>
      unfold importClass at imported
      split at imported
      · cases imported
        exact .refl tree
      · split at imported
        · cases imported
        · next host _ =>
            split at imported
            · cases imported
              exact .pushClass tree (hostDefinition_blank host none)
                (hostDefinition_isImport host none)
            · obtain ⟨⟨above, between⟩, importedParent, added⟩ := Option.map_eq_some_iff.mp imported
              cases added
              exact (inductionHypothesis importedParent).trans
                (.pushClass between (hostDefinition_blank host (some above))
                  (hostDefinition_isImport host (some above)))

/-- A name is found in front of a pushed class, or it is the name of that class. -/
theorem Tree.classNamed?_push
    {entry : ClassDef}
    (isNew : tree.classNamed? name = none)
    (isNamed :
      Tree.classNamed? { tree with classes := tree.classes.push entry } name ≠ none) :
    entry.name = name := by
  by_contra differs
  refine isNamed ?_
  simp only [Tree.classNamed?, Option.map_eq_none_iff, Array.findIdx?_push] at isNew ⊢
  simp [isNew, differs]

/-- Only classes that can be imported themselves are added with an imported class. -/
theorem Compile.importClass_adds
    {other : String}
    (imported : importClass registry bound tree name = some (id, after))
    (isNew : tree.classNamed? other = none)
    (isNamed : after.classNamed? other ≠ none) :
    ∃ found, importClass registry bound tree other = some found := by
  induction bound generalizing name id after with
  | zero => cases imported
  | succ bound inductionHypothesis =>
      have whole := imported
      unfold importClass at imported
      split at imported
      · cases imported
        exact absurd isNew isNamed
      · split at imported
        · cases imported
        · next host isHost =>
            have hostName : host.name = name := by simpa using List.find?_some isHost
            split at imported
            · cases imported
              obtain rfl : host.name = other := Tree.classNamed?_push isNew isNamed
              exact ⟨_, hostName ▸ whole⟩
            · obtain ⟨⟨above, between⟩, importedParent, added⟩ :=
                Option.map_eq_some_iff.mp imported
              cases added
              by_cases already : between.classNamed? other = none
              · obtain rfl : host.name = other := Tree.classNamed?_push already isNamed
                exact ⟨_, hostName ▸ whole⟩
              · obtain ⟨found, importedOther⟩ := inductionHypothesis importedParent already
                exact ⟨found, importClass_succ importedOther⟩

/-- The class that stands for a host class is sound. -/
theorem Registry.Offers.hostDefinition
    {context : CompileContext}
    {host : HostClass}
    {parent : Option ClassId}
    (offers : context.registry.Offers known)
    (isHost : host ∈ context.registry.classes)
    (inside : ∀ id ∈ parent, id.index < tree.classes.size) :
    tree.ClassSound context known (hostDefinition host parent) where
  names once := by simpa [Compile.hostDefinition, Function.comp_def] using once host isHost
  parent := inside
  initials field isField initial isInitial := by
    rw [Compile.hostDefinition_blank host parent field isField] at isInitial
    cases isInitial
  methods method isMethod := by
    obtain ⟨hostMethod, isHostMethod, rfl⟩ := List.mem_map.mp isMethod
    exact ⟨offers.methods host isHost hostMethod isHostMethod, nofun⟩
  dispatch := nofun

/-- A sound tree stays sound when a class is imported. -/
theorem Tree.Sound.importClass
    {context : CompileContext}
    (sound : tree.Sound context known own)
    (offers : context.registry.Offers known)
    (imported : Compile.importClass context.registry bound tree name = some (id, after)) :
    after.Sound context known own ∧ tree.Grows after ∧ id.index < after.classes.size := by
  have last {before : Tree} {entry : ClassDef} :
      (Id.ofIndex before.classes.size : ClassId).index < (before.classes.push entry).size :=
    Nat.lt_of_le_of_lt (Id.index_ofIndex_le _) (by simp)
  induction bound generalizing name id after with
  | zero => cases imported
  | succ bound inductionHypothesis =>
      -- A class that is among its own ancestors is not imported within any bound.
      by_cases within : Compile.importClass context.registry bound tree name = some (id, after)
      · exact inductionHypothesis within
      have whole := imported
      unfold Compile.importClass at imported
      split at imported
      · next isNamed =>
          cases imported
          exact ⟨sound, .refl _, Tree.classNamed?_inside isNamed⟩
      · next isNew =>
          split at imported
          · cases imported
          · next host isHost =>
              have hostName : host.name = name := by simpa using List.find?_some isHost
              have isMember : host ∈ context.registry.classes := List.mem_of_find?_eq_some isHost
              split at imported
              · cases imported
                refine ⟨sound.pushClass _ (offers.hostDefinition isMember nofun) ?_,
                  .pushClass _ _, last⟩
                change tree.classNamed? host.name = none
                rwa [hostName]
              · obtain ⟨⟨above, between⟩, importedParent, added⟩ :=
                  Option.map_eq_some_iff.mp imported
                cases added
                obtain ⟨betweenSound, grows, inside⟩ := inductionHypothesis importedParent
                refine ⟨betweenSound.pushClass _ (offers.hostDefinition isMember ?_) ?_,
                  grows.trans (.pushClass _ _), last⟩
                · rintro _ ⟨⟩
                  exact inside
                · change between.classNamed? host.name = none
                  by_contra isNamed
                  obtain ⟨found, importedName⟩ :=
                    Compile.importClass_adds importedParent isNew (hostName ▸ isNamed)
                  have same := (Compile.importClass_succ importedName).symm.trans whole
                  exact within (importedName.trans same)

end Imports

namespace Compile.Builds

variable {α β : Type} {context : CompileContext} {known : NativeId → Prop} {own : Nat}
  {state : CompileState}

/-! ## Types and classes -/

/-- A class that is found is in the tree. -/
theorem resolveClass?
    (name : String) :
    Builds context known own state (fun after found => ∀ id ∈ found, id.index < after.tree.classes.size)
      (Compile.resolveClass? name) := by
  unfold Compile.resolveClass?
  refine reading rfl (reading rfl ?_)
  split
  · next id tree imported =>
      refine bind (M := fun after _ => id.index < after.tree.classes.size)
        (ofRun rfl fun ready => ?_) fun _ _ _ inside => pure ?_
      · obtain ⟨sound, grows, inside⟩ := ready.tree.importClass ready.offers imported
        have functions := congrArg Tree.functions (importClass_same imported)
        exact ⟨⟨ready.offers, sound, fun owner isOwner =>
            Nat.lt_of_lt_of_le (ready.owner owner isOwner) grows.classes_size, ready.inside⟩,
          ⟨ready.tree.keeps grows, functions, importClass_gains imported, Nat.le_refl _, .refl _⟩,
          inside⟩
      · rintro _ ⟨⟩
        exact inside
  · exact pure nofun

/-- A step that may import a class is followed by others. -/
theorem resolving
    {name : String}
    {post : CompileState → β → Prop}
    {next : Option ClassId → Compile β}
    (rest : ∀ between found, state.Onward between →
      (∀ id ∈ found, id.index < between.tree.classes.size) →
      Builds context known own between post (next found)) :
    Builds context known own state post (Compile.resolveClass? name >>= next) :=
  bind (resolveClass? name) rest

/-- Whether a type starts here. -/
theorem atType :
    Builds context known own state (fun _ _ => True) Compile.atType := by
  unfold Compile.atType
  refine reading rfl ?_
  split
  · exact pure trivial
  · exact reading rfl (resolving fun _ _ _ _ => pure trivial)
  · exact pure trivial

/-- A type. -/
theorem parseType :
    Builds context known own state (fun _ _ => True) Compile.parseType := by
  unfold Compile.parseType
  refine reading rfl ?_
  split
  · exact reading rfl (requiring fun base _ => behind fun _ _ _ => strides fun _ _ _ => trivial)
  · refine reading rfl (reading rfl (resolving fun _ _ _ _ => requiring fun id _ => ?_))
    exact reading rfl (behind fun _ _ _ => strides fun _ _ _ => trivial)
  · exact failedThen

/-! ## Scopes -/

/-- What follows a change of the scope that keeps its class and its variables. -/
theorem scoping
    {post : CompileState → β → Prop}
    {change : Scope → Scope}
    {next : Unit → Compile β}
    (goesOn : state.scope.Extends (change state.scope))
    (rest : Builds context known own ⟨state.position, state.tree, change state.scope⟩ post (next ())) :
    Builds context known own state post (modifyScope change >>= next) := by
  intro ready result after runs
  obtain ⟨_, _, taken, runs⟩ := bind_ok runs
  cases taken
  obtain ⟨afterReady, onward, holds⟩ := rest
    ⟨ready.offers, ready.tree, fun id isOwner => ready.owner id (goesOn.owner ▸ isOwner),
      ready.inside⟩ _ _ runs
  exact ⟨afterReady, ⟨onward.tree, onward.functions, onward.classes, onward.position,
    goesOn.trans onward.scope⟩, holds⟩

end Compile.Builds

end BotScript
